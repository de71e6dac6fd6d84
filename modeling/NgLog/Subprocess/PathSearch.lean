import NgLog.Support.Bytes
import NgLog.Support.Delimiters

/-!
# The search for a program

After `fork`, the child process searches the directories of `PATH` itself, since `execvp` would pass
the environment of this process. It must not allocate, so it composes each candidate in a buffer of
fixed size and leaves out those that do not fit. `execve` returns only if it fails: some errors let
the search go on, and every other one ends it.

`execve` is a parameter here, which gives the error of a call and knows all the calls so far.

## Main definitions

* `executeWithExecvp` — the search
* `candidates` — the paths of the program in the directories, those that fit
* `Searches` — what the search does with a list of candidates

## Main results

* `composeCandidate_eq` — a candidate is written within the buffer
* `searchLoop_searches` — the loop over the search path tries the candidates
* `executeWithExecvp_searches` — which calls there are, and the error that is left
-/

namespace NgLog

namespace PathSearch

/-- The values of `errno`. -/
inductive Errno
  | enoent
  | eacces
  | enotdir
  | enametoolong
  | other (number : ℕ)
  deriving DecidableEq

/-- `'/'`. -/
def slash : Byte := 47

/-- `':'`. -/
def colon : Byte := 58

/-! ### The code -/

def kDefaultSearchPath : CString := ⟨bytes "/bin:/usr/bin", by decide +kernel⟩
def kMaxCandidatePathLength : ℕ := 4096

/-- `std::memcpy` to an offset in an array, unless some bytes are outside of it. -/
def copyTo (array : List Byte) (offset : ℕ) (text : List Byte) : Option (List Byte) :=
  if offset + text.length ≤ array.length then
    some (array.take offset ++ text ++ array.drop (offset + text.length))
  else none

/-- The writes for one directory, of which `prefixLength` bytes precede the program name. -/
def composeCandidate (program : CString) (directory : List Byte) (prefixLength : ℕ)
    (candidate : List Byte) : Option (List Byte) := do
  let candidate ← copyTo candidate 0 directory
  let candidate ←
    if prefixLength ≠ 0 then copyTo candidate directory.length [slash] else some candidate
  copyTo candidate prefixLength program.array

/-- The path that `execve` gets. -/
def pathOf (candidate : List Byte) : List Byte := candidate.takeWhile (· ≠ 0)

/-- The paths that have been passed to `execve`, and the error that is left. -/
structure Outcome where
  calls : List (List Byte)
  error : Errno
  deriving DecidableEq

/-- The variables of the loop, and the calls so far. -/
structure Search where
  candidate : List Byte
  accessDenied : Bool
  error : Errno
  calls : List (List Byte)

/-- What a round of the loop leads to. -/
inductive Round
  | goOn (search : Search)
  | stop (outcome : Outcome)

variable (execve : List (List Byte) → Errno) (program : CString)

/-- A round of the loop, for one directory. -/
def tryDirectory (directory : List Byte) (search : Search) : Option Round :=
  let maxPrefixLength := kMaxCandidatePathLength - program.length
  let prefixLength := if directory.length ≠ 0 then directory.length + 1 else 0
  if prefixLength < maxPrefixLength then
    (composeCandidate program directory prefixLength search.candidate).map fun candidate =>
      let calls := search.calls ++ [pathOf candidate]
      let error := execve calls
      if error = .eacces then .goOn ⟨candidate, true, error, calls⟩
      else if error ≠ .enoent ∧ error ≠ .enotdir then .stop ⟨calls, error⟩
      else .goOn ⟨candidate, search.accessDenied, error, calls⟩
  else some (.goOn search)

/-- The loop, from `directory` on. -/
def searchLoop (path : List Byte) (search : Search) : Option Outcome :=
  (tryDirectory execve program (path.takeWhile (· ≠ colon)) search).bind fun
    | .stop outcome => some outcome
    | .goOn search =>
      match _hend : path.dropWhile (· ≠ colon) with
      | [] => some ⟨search.calls, if search.accessDenied then .eacces else search.error⟩
      | _ :: rest => searchLoop rest search
termination_by path.length
decreasing_by
  have hle := (List.dropWhile_sublist (l := path) (· ≠ colon)).length_le
  rw [_hend, List.length_cons] at hle
  omega

/-- `ExecuteWithExecvp`, or nothing if it would write outside of its buffer. `candidate` is what the
buffer held before. -/
def executeWithExecvp (searchPath : Option CString)
    (candidate : Vector Byte kMaxCandidatePathLength) :
    Option Outcome :=
  if slash ∈ program.text then some ⟨[program.text], execve [program.text]⟩
  else
    let searchPath := searchPath.getD kDefaultSearchPath
    if kMaxCandidatePathLength ≤ program.length then some ⟨[], .enametoolong⟩
    else searchLoop execve program searchPath.text ⟨candidate.toList, false, .enoent, []⟩

/-! ### The candidates -/

/-- The path of the program in a directory; an empty entry of the search path is the current one. -/
def candidateOf (directory : List Byte) : List Byte :=
  if directory = [] then program.text else directory ++ slash :: program.text

/-- The path and its terminator fit into the buffer. -/
def Fits (path : List Byte) : Prop := path.length + 1 ≤ kMaxCandidatePathLength

instance decidableFits (path : List Byte) : Decidable (Fits path) := Nat.decLe _ _

/-- The candidates that are tried, in the order of the directories. -/
def candidates (searchPath : List Byte) : List (List Byte) :=
  ((searchPath.splitOn colon).map (candidateOf program)).filter Fits

/-- An error after which the search goes on. -/
def Skipped (error : Errno) : Prop := error = .eacces ∨ error = .enoent ∨ error = .enotdir

/-- What the search does with its candidates: it stops with the first error that is not skipped, or
it tries all of them and prefers a denied access to the last error. -/
def Searches (tried : List (List Byte)) (outcome : Outcome) : Prop :=
  (∃ i < tried.length, outcome.calls = tried.take (i + 1) ∧
    outcome.error = execve (tried.take (i + 1)) ∧
      ¬Skipped (execve (tried.take (i + 1))) ∧ ∀ j < i, Skipped (execve (tried.take (j + 1)))) ∨
    (outcome.calls = tried ∧ (∀ j < tried.length, Skipped (execve (tried.take (j + 1)))) ∧
      outcome.error =
        if ∃ j < tried.length, execve (tried.take (j + 1)) = .eacces then .eacces
        else if tried = [] then .enoent else execve tried)

/-! ### The buffer -/

variable {execve program} {front rest text directory candidate path : List Byte}

/-- A text behind what has been written before. -/
theorem copyTo_append (h : text.length ≤ rest.length) :
    copyTo (front ++ rest) front.length text = some (front ++ text ++ rest.drop text.length) := by
  rw [copyTo, if_pos (by rw [List.length_append]; omega)]
  simp

/-- **A candidate that fits is written within the buffer**, with a terminator behind it. -/
theorem composeCandidate_eq (h : (candidateOf program directory).length + 1 ≤ candidate.length) :
    ∃ rest,
      composeCandidate program directory (if directory.length ≠ 0 then directory.length + 1 else 0)
        candidate = some (candidateOf program directory ++ 0 :: rest) ∧
      (candidateOf program directory ++ 0 :: rest).length = candidate.length := by
  have hprogram : program.array.length = program.text.length + 1 := by simp [CString.array]
  by_cases hdirectory : directory = []
  · subst hdirectory
    have hcandidate : candidateOf program [] = program.text := if_pos rfl
    rw [hcandidate] at h ⊢
    have hnothing : copyTo candidate 0 [] = some candidate := by
      simpa using @copyTo_append [] candidate [] (Nat.zero_le candidate.length)
    have hcopy : copyTo candidate 0 program.array =
        some (program.array ++ candidate.drop program.array.length) := by
      simpa using @copyTo_append [] candidate program.array (by omega)
    refine ⟨candidate.drop program.array.length, ?_, ?_⟩
    · simp only [composeCandidate, List.length_nil, ne_eq, not_true_eq_false, if_false, hnothing,
        Option.bind_eq_bind, Option.bind_some, hcopy]
      simp [CString.array]
    · simp only [List.length_append, List.length_cons, List.length_drop]
      omega
  · have hcandidate : candidateOf program directory = directory ++ slash :: program.text :=
      if_neg hdirectory
    have hlength : directory.length ≠ 0 := mt List.length_eq_zero_iff.mp hdirectory
    rw [hcandidate, List.length_append, List.length_cons] at h
    have hfirst : copyTo candidate 0 directory =
        some (directory ++ candidate.drop directory.length) := by
      simpa using @copyTo_append [] candidate directory (by omega)
    have hslash : copyTo (directory ++ candidate.drop directory.length) directory.length [slash] =
        some (directory ++ [slash] ++ (candidate.drop directory.length).drop 1) :=
      copyTo_append (by rw [List.length_drop, List.length_singleton]; omega)
    have hlast := @copyTo_append (directory ++ [slash]) ((candidate.drop directory.length).drop 1)
      program.array (by rw [List.length_drop, List.length_drop]; omega)
    rw [List.length_append, List.length_singleton] at hlast
    refine ⟨((candidate.drop directory.length).drop 1).drop program.array.length, ?_, ?_⟩
    · simp only [composeCandidate, if_pos hlength, Option.bind_eq_bind, hfirst, Option.bind_some,
        ne_eq, Nat.succ_ne_zero, not_false_eq_true, if_true, hslash, hlast]
      simp [CString.array, hcandidate]
    · rw [hcandidate]
      simp only [List.length_append, List.length_cons, List.length_drop]
      omega

/-- `execve` gets the candidate, which holds no NUL. -/
theorem pathOf_append (hpath : 0 ∉ path) (rest : List Byte) :
    pathOf (path ++ 0 :: rest) = path := by
  have hall : ∀ c ∈ path, decide (c ≠ 0) = true := by
    intro c hc
    simp only [decide_eq_true_eq]
    rintro rfl
    exact hpath hc
  rw [pathOf, List.takeWhile_append_of_pos hall]
  simp

theorem zero_notMem_candidateOf (h : 0 ∉ directory) : 0 ∉ candidateOf program directory := by
  rw [candidateOf]
  split
  · exact program.noNul
  · have hne : (0 : Byte) ≠ slash := by decide
    simp [h, program.noNul, hne]

/-! ### The loop -/

/-- What a call does to the search. -/
def afterCall (execve : List (List Byte) → Errno) (search : Search) (path candidate : List Byte) :
    Round :=
  let calls := search.calls ++ [path]
  let error := execve calls
  if error = .eacces then .goOn ⟨candidate, true, error, calls⟩
  else if error ≠ .enoent ∧ error ≠ .enotdir then .stop ⟨calls, error⟩
  else .goOn ⟨candidate, search.accessDenied, error, calls⟩

/-- A directory whose candidate fits leads to a call, and another one to none. -/
theorem tryDirectory_eq (execve : List (List Byte) → Errno) (hdirectory : 0 ∉ directory)
    {search : Search} (hsize : search.candidate.length = kMaxCandidatePathLength)
    (hprogram : program.length < kMaxCandidatePathLength) :
    if Fits (candidateOf program directory) then
      ∃ candidate, candidate.length = kMaxCandidatePathLength ∧
        tryDirectory execve program directory search =
          some (afterCall execve search (candidateOf program directory) candidate)
    else tryDirectory execve program directory search = some (.goOn search) := by
  have hlength : (candidateOf program directory).length =
      (if directory.length ≠ 0 then directory.length + 1 else 0) + program.length := by
    rw [candidateOf, CString.length]
    by_cases hnil : directory = []
    · simp [hnil]
    · have hne : directory.length ≠ 0 := mt List.length_eq_zero_iff.mp hnil
      rw [if_neg hnil, if_pos hne, List.length_append, List.length_cons]
      omega
  split
  · next hfits =>
    rw [Fits] at hfits
    obtain ⟨rest, hcompose, hrest⟩ :=
      @composeCandidate_eq program directory search.candidate (by omega)
    refine ⟨_, hrest.trans hsize, ?_⟩
    simp only [tryDirectory, hcompose]
    rw [if_pos (by omega), Option.map_some, pathOf_append (zero_notMem_candidateOf hdirectory)]
    rfl
  · next hfits =>
    rw [Fits] at hfits
    simp only [tryDirectory]
    rw [if_neg (by omega)]

/-- What the variables of the loop say about the calls so far. -/
structure Reached (execve : List (List Byte) → Errno) (search : Search) : Prop where
  skipped : ∀ j < search.calls.length, Skipped (execve (search.calls.take (j + 1)))
  denied : search.accessDenied = true ↔
    ∃ j < search.calls.length, execve (search.calls.take (j + 1)) = .eacces
  last : search.error = if search.calls = [] then .enoent else execve search.calls

/-- The calls up to one of the first ones, with one more behind them. -/
theorem take_append_of_lt {calls : List (List Byte)} {j : ℕ} (h : j < calls.length)
    (later : List (List Byte)) : (calls ++ later).take (j + 1) = calls.take (j + 1) :=
  List.take_append_of_le_length h

/-- A call that fails so that the search goes on. -/
theorem Reached.next {search : Search} (h : Reached execve search) (path candidate : List Byte)
    (hskipped : Skipped (execve (search.calls ++ [path]))) :
    Reached execve ⟨candidate, search.accessDenied || execve (search.calls ++ [path]) = .eacces,
      execve (search.calls ++ [path]), search.calls ++ [path]⟩ := by
  have hall : (search.calls ++ [path]).take (search.calls.length + 1) = search.calls ++ [path] :=
    List.take_of_length_le (by simp)
  constructor
  · intro j hj
    rw [List.length_append, List.length_singleton, Nat.lt_succ_iff_lt_or_eq] at hj
    rcases hj with hj | rfl
    · show Skipped (execve ((search.calls ++ [path]).take (j + 1)))
      rw [take_append_of_lt hj _]
      exact h.skipped j hj
    · rwa [hall]
  · show (search.accessDenied || _) = true ↔ ∃ j < (search.calls ++ [path]).length, _
    rw [Bool.or_eq_true, h.denied, decide_eq_true_eq, List.length_append, List.length_singleton]
    constructor
    · rintro (⟨j, hj, heacces⟩ | heacces)
      · exact ⟨j, by omega, by rwa [take_append_of_lt hj _]⟩
      · exact ⟨search.calls.length, by omega, by rwa [hall]⟩
    · rintro ⟨j, hj, heacces⟩
      rcases Nat.lt_succ_iff_lt_or_eq.mp hj with hj | rfl
      · exact Or.inl ⟨j, hj, by rwa [take_append_of_lt hj _] at heacces⟩
      · exact Or.inr (by rwa [hall] at heacces)
  · simp

/-- **What a call does to the search**: it goes on with the calls, or it stops. -/
theorem Reached.afterCall {search : Search} (h : Reached execve search)
    (path candidate : List Byte) :
    (∃ next, afterCall execve search path candidate = .goOn next ∧ Reached execve next ∧
        next.calls = search.calls ++ [path] ∧ next.candidate = candidate) ∨
      (afterCall execve search path candidate =
          .stop ⟨search.calls ++ [path], execve (search.calls ++ [path])⟩ ∧
        ¬Skipped (execve (search.calls ++ [path]))) := by
  by_cases hskipped : Skipped (execve (search.calls ++ [path]))
  · refine Or.inl ⟨_, ?_, h.next path candidate hskipped, rfl, rfl⟩
    rw [PathSearch.afterCall]
    rcases hskipped with heq | heq | heq <;> simp [heq]
  · refine Or.inr ⟨?_, hskipped⟩
    obtain ⟨heacces, hother⟩ := not_or.mp hskipped
    show (if _ then _ else if _ then _ else _) = _
    rw [if_neg heacces, if_pos (not_or.mp hother)]

/-- The search has stopped behind the calls so far. -/
theorem Reached.searches_stop {search : Search} (h : Reached execve search)
    (hstop : ¬Skipped (execve (search.calls ++ [path]))) (later : List (List Byte)) :
    Searches execve (search.calls ++ path :: later)
      ⟨search.calls ++ [path], execve (search.calls ++ [path])⟩ := by
  have htake : (search.calls ++ path :: later).take (search.calls.length + 1) =
      search.calls ++ [path] := by
    rw [List.append_cons, List.take_append_of_le_length (by simp), List.take_of_length_le (by simp)]
  refine Or.inl ⟨search.calls.length, by simp, htake.symm, ?_, ?_, ?_⟩
  · rw [htake]
  · rwa [htake]
  · intro j hj
    rw [take_append_of_lt hj _]
    exact h.skipped j hj

/-- The search is through with its candidates. -/
theorem Reached.searches_end {search : Search} (h : Reached execve search) :
    Searches execve search.calls
      ⟨search.calls, if search.accessDenied then .eacces else search.error⟩ := by
  refine Or.inr ⟨rfl, h.skipped, ?_⟩
  by_cases hdenied : search.accessDenied = true
  · rw [if_pos hdenied, if_pos (h.denied.mp hdenied)]
  · rw [if_neg hdenied, if_neg (mt h.denied.mpr hdenied), h.last]

/-- **A round of the loop**: it adds the candidate of its directory to the calls, if it fits, and
the search goes on, or it stops behind this call. -/
theorem tryDirectory_searches (hdirectory : 0 ∉ directory) {search : Search}
    (hprogram : program.length < kMaxCandidatePathLength) (hreached : Reached execve search)
    (hsize : search.candidate.length = kMaxCandidatePathLength) :
    (∃ next, tryDirectory execve program directory search = some (.goOn next) ∧
      Reached execve next ∧
        next.candidate.length = kMaxCandidatePathLength ∧
        next.calls = search.calls ++ [candidateOf program directory].filter Fits) ∨
      ∃ outcome, tryDirectory execve program directory search = some (.stop outcome) ∧
        ∀ later, Searches execve
          (search.calls ++ ([candidateOf program directory].filter Fits ++ later)) outcome := by
  have htry := tryDirectory_eq execve hdirectory hsize hprogram
  by_cases hfits : Fits (candidateOf program directory)
  · rw [if_pos hfits] at htry
    obtain ⟨candidate, hlength, htry⟩ := htry
    have hfilter : [candidateOf program directory].filter Fits =
        [candidateOf program directory] := by
      simp [hfits]
    rw [hfilter]
    rcases hreached.afterCall (candidateOf program directory) candidate with
      ⟨next, hafter, hnext, hcalls, hcandidate⟩ | ⟨hafter, hstop⟩
    · rw [hafter] at htry
      exact Or.inl ⟨next, htry, hnext, by rw [hcandidate, hlength], hcalls⟩
    · rw [hafter] at htry
      exact Or.inr ⟨_, htry, hreached.searches_stop hstop⟩
  · rw [if_neg hfits] at htry
    exact Or.inl ⟨search, htry, hreached, hsize, by simp [hfits]⟩

theorem searchLoop_of_stop {search : Search} {outcome : Outcome}
    (htry : tryDirectory execve program (path.takeWhile (· ≠ colon)) search =
      some (.stop outcome)) :
    searchLoop execve program path search = some outcome := by
  rw [searchLoop, htry, Option.bind_some]

theorem searchLoop_append (hdirectory : colon ∉ directory) {search next : Search}
    (htry : tryDirectory execve program directory search = some (.goOn next)) :
    searchLoop execve program (directory ++ colon :: rest) search = searchLoop execve program
      rest next := by
  have hdrop := dropWhile_ne_append hdirectory rest
  rw [searchLoop, takeWhile_ne_append hdirectory, htry, Option.bind_some]
  dsimp only
  split
  · next hend =>
    rw [hdrop] at hend
    exact absurd hend (List.cons_ne_nil _ _)
  · next hend =>
    rw [hdrop] at hend
    rw [(List.cons.inj hend).2]

theorem searchLoop_last (hdirectory : colon ∉ directory) {search next : Search}
    (htry : tryDirectory execve program directory search = some (.goOn next)) :
    searchLoop execve program directory search =
      some ⟨next.calls, if next.accessDenied then .eacces else next.error⟩ := by
  have hdrop := dropWhile_ne_of_notMem hdirectory
  rw [searchLoop, takeWhile_ne_of_notMem hdirectory, htry, Option.bind_some]
  dsimp only
  split
  · rfl
  · next hend =>
    rw [hdrop] at hend
    exact absurd hend.symm (List.cons_ne_nil _ _)

/-- **The loop tries the candidates of the directories that are left.** By induction over the
directories of the search path. -/
theorem searchLoop_searches (hprogram : program.length < kMaxCandidatePathLength) (hpath : 0 ∉ path)
    {search : Search} (hreached : Reached execve search)
    (hsize : search.candidate.length = kMaxCandidatePathLength) :
    ∃ outcome, searchLoop execve program path search = some outcome ∧
      Searches execve (search.calls ++ candidates program path) outcome := by
  induction path using delimited_induction colon generalizing search with
  | last directory hcolon =>
    have hcandidates :
      candidates program directory = [candidateOf program directory].filter Fits := by
      rw [candidates, List.splitOn_eq_singleton hcolon, List.map_singleton]
    rw [hcandidates]
    rcases tryDirectory_searches hpath hprogram hreached hsize with
      ⟨next, htry, hnext, -, hcalls⟩ | ⟨outcome, htry, hstop⟩
    · rw [searchLoop_last hcolon htry, ← hcalls]
      exact ⟨_, rfl, hnext.searches_end⟩
    · have hlater := hstop []
      rw [List.append_nil] at hlater
      refine ⟨outcome, searchLoop_of_stop ?_, hlater⟩
      rwa [takeWhile_ne_of_notMem hcolon]
  | cons directory rest hcolon ih =>
    have hcandidates : candidates program (directory ++ colon :: rest) =
        [candidateOf program directory].filter Fits ++ candidates program rest := by
      rw [candidates, List.splitOn_append_cons_self_of_not_mem hcolon, List.map_cons, candidates,
        ← List.filter_append]
      rfl
    rw [List.mem_append, List.mem_cons, not_or, not_or] at hpath
    rw [hcandidates]
    rcases tryDirectory_searches hpath.1 hprogram hreached hsize with
      ⟨next, htry, hnext, hcandidate, hcalls⟩ | ⟨outcome, htry, hstop⟩
    · rw [searchLoop_append hcolon htry, ← List.append_assoc, ← hcalls]
      exact ih hpath.2.2 hnext hcandidate
    · refine ⟨outcome, searchLoop_of_stop ?_, hstop _⟩
      rwa [takeWhile_ne_append hcolon]

/-- **Which calls the search makes, and which error it leaves.** It writes within its buffer. A name
that does not fit into it makes no call. -/
theorem executeWithExecvp_searches (execve : List (List Byte) → Errno) (program : CString)
    (searchPath : Option CString) (candidate : Vector Byte kMaxCandidatePathLength)
    (hslash : slash ∉ program.text) :
    ∃ outcome, executeWithExecvp execve program searchPath candidate = some outcome ∧
      if program.length < kMaxCandidatePathLength then
        Searches execve (candidates program (searchPath.getD kDefaultSearchPath).text) outcome
      else outcome = ⟨[], .enametoolong⟩ := by
  have hstart : Reached execve ⟨candidate.toList, false, .enoent, []⟩ := by
    constructor <;> simp
  rw [executeWithExecvp, if_neg hslash]
  by_cases hprogram : program.length < kMaxCandidatePathLength
  · simp only [if_pos hprogram, if_neg (Nat.not_le.mpr hprogram)]
    exact searchLoop_searches hprogram (CString.noNul _) hstart (by simp)
  · simp only [if_neg hprogram, if_pos (Nat.not_lt.mp hprogram)]
    exact ⟨_, rfl, rfl⟩

theorem executeWithExecvp_searches_missing :
    slash ∉ bytes "ls" ∧ ∃ outcome, executeWithExecvp (fun _ => .enoent)
      ⟨bytes "ls", by decide +kernel⟩ none
        (Vector.replicate _ 0) = some outcome ∧
      if (⟨bytes "ls", by decide +kernel⟩ : CString).length < kMaxCandidatePathLength then
        Searches (fun _ => .enoent) (candidates ⟨bytes "ls", by decide +kernel⟩
          ((none : Option CString).getD kDefaultSearchPath).text) outcome
      else outcome = ⟨[], .enametoolong⟩ := by
  have hslash : slash ∉ bytes "ls" := by decide +kernel
  exact ⟨hslash, executeWithExecvp_searches _ _ none _ hslash⟩

/-- A name of as many bytes as the buffer has. -/
def longName : CString :=
  ⟨List.replicate 4096 97, fun hmem => absurd (List.eq_of_mem_replicate hmem) (by decide)⟩

/-- It makes no call, but the error is not `ENOENT`. -/
theorem executeWithExecvp_longName :
    slash ∉ longName.text ∧
      ¬∃ outcome, executeWithExecvp (fun _ => .enoent) longName none (Vector.replicate _ 0) =
          some outcome ∧
        Searches (fun _ => .enoent) (candidates longName kDefaultSearchPath.text) outcome := by
  have hlength : longName.length = 4096 := List.length_replicate
  have hslash : slash ∉ longName.text := by
    intro hmem
    exact absurd (List.eq_of_mem_replicate hmem) (by decide)
  refine ⟨hslash, ?_⟩
  rintro ⟨outcome, heq, hsearches⟩
  have hdirect : executeWithExecvp (fun _ => .enoent) longName none (Vector.replicate _ 0) =
      some ⟨[], .enametoolong⟩ := by
    rw [executeWithExecvp, if_neg hslash]
    exact if_pos (Nat.le_of_eq hlength.symm)
  obtain rfl := Option.some.inj (hdirect.symm.trans heq)
  rcases hsearches with ⟨i, -, -, herror, -⟩ | ⟨-, -, herror⟩
  · cases herror
  · split at herror
    · cases herror
    · split at herror <;> cases herror

end PathSearch

end NgLog
