import NgLog.SourceLocation.FileLine
import NgLog.Support.Delimiters

/-!
# Long paths

The system limits how long a path can be. A path that is too long is resolved component by
component: each directory is opened relative to the one before, and the operation is done relative
to the last one. For paths of any length the result is that of the operation without a limit, unless
the process runs out of descriptors, and no descriptor is left open.

## Main definitions

* `FileSystem.resolve` — how paths are resolved
* `resolveParent`, `retryWithResolvedParent` — the resolution by components
* `statPosixPath`, … — the operations

## Main results

* `posix_paths` — the operations resolve paths of any length
-/

namespace NgLog

namespace Paths

open SourceLocation
  (findIfReverse findIfReverse_spec findIfReverse_append findIfReverse_append_cons)

/-- The error numbers that the code distinguishes. -/
inductive Errno
  | EACCES
  | ENOENT
  | EBADF
  | EINVAL
  | ENAMETOOLONG
  | other (number : ℤ)
  deriving DecidableEq

/-- A slash. -/
def slash : Byte := 0x2f

/-! ### File systems -/

/-- The directories of a file system. -/
structure FileSystem (D : Type) where
  root : D
  /-- The current directory. -/
  current : D
  /-- The process may look for names in the directory. -/
  searchable : D → Bool
  /-- The directory that has a name in another one, when symbolic links are followed. -/
  entry : D → List Byte → Except Errno D

variable {D α β : Type} (fs : FileSystem D)

/-- A component of a path that names a directory. -/
def FileSystem.lookup (d : D) (component : List Byte) : Except Errno D :=
  if !fs.searchable d then .error .EACCES
  else if component = bytes "." then .ok d
  else fs.entry d component

/-- The components of a path. -/
def components (path : List Byte) : List (List Byte) := (path.splitOn slash).filter (· ≠ [])

/-- The slashes at the end. -/
def trailing (path : List Byte) : List Byte := (path.reverse.takeWhile (· = slash)).reverse

/-- The directory that a path starts in. -/
def FileSystem.start (path : List Byte) : D :=
  if path.head? = some slash then fs.root else fs.current

/-- What an operation does on the file that a path names. The components before the last one name
directories, and a path of slashes names the root. -/
def FileSystem.resolve (operation : D → List Byte → Except Errno α) (path : List Byte) :
    Except Errno α :=
  if path = [] then .error .ENOENT
  else match (components path).getLast? with
    | none => operation fs.root (bytes ".")
    | some final => ((components path).dropLast.foldlM fs.lookup (fs.start path)).bind fun d =>
      operation d (final ++ trailing path)

/-- The operation of the system, which takes no paths that are too long. -/
def FileSystem.call (pathMax : ℕ) (operation : D → List Byte → Except Errno α) (path : List Byte) :
    Except Errno α :=
  if pathMax ≤ path.length then .error .ENAMETOOLONG else fs.resolve operation path

/-! ### The code -/

/-- The open descriptors, with their directories. -/
abbrev Descriptors (D : Type) : Type := List (ℕ × D)

-- The descriptor that the system would open next, or why it does not.
variable (fresh : Descriptors D → Except Errno ℕ)

/-- Open a directory. -/
def openDirectory (k : Descriptors D) (d : D) : Except Errno (ℕ × Descriptors D) :=
  (fresh k).map fun descriptor => (descriptor, (descriptor, d) :: k)

/-- `openat` with `DirectoryOpenFlags`, which asks for no permissions but to search. -/
def openat (k : Descriptors D) (directory : ℕ) (component : List Byte) :
    Except Errno (ℕ × Descriptors D) :=
  match k.lookup directory with
  | none => .error .EBADF
  | some d => (fs.lookup d component).bind (openDirectory fresh k)

/-- `close` -/
def close (k : Descriptors D) (directory : ℕ) : Descriptors D :=
  k.filter fun entry => entry.1 ≠ directory

/-- The loop of `ResolveParent`, with what is left in front of the final component. -/
def resolveLoop : ℕ → Descriptors D → ℕ → List Byte → Except Errno ℕ × Descriptors D
  | 0, k, directory, _ => (.ok directory, k)
  | fuel + 1, k, directory, rest =>
    let rest := rest.dropWhile (· = slash)
    if rest = [] then (.ok directory, k)
    else
      let component := rest.takeWhile (· ≠ slash)
      let rest := rest.drop (component.length + 1)
      if component = bytes "." then resolveLoop fuel k directory rest
      else match openat fs fresh k directory component with
        | .error e => (.error e, close k directory)
        | .ok (child, k) => resolveLoop fuel (close k directory) child rest

/-- `ResolveParent` -/
def resolveParent (k : Descriptors D) (path : List Byte) :
    Except Errno (ℕ × List Byte) × Descriptors D :=
  let componentEnd := findIfReverse (· ≠ slash) path
  if componentEnd = 0 then
    match openDirectory fresh k fs.root with
    | .error e => (.error e, k)
    | .ok (directory, k) => (.ok (directory, bytes "."), k)
  else
    let finalStart := findIfReverse (· = slash) (path.take componentEnd)
    let absolute := path.head? = some slash
    match openDirectory fresh k (if absolute then fs.root else fs.current) with
    | .error e => (.error e, k)
    | .ok (directory, k) =>
      match resolveLoop fs fresh finalStart k directory
        ((path.take finalStart).drop (if absolute then 1 else 0)) with
      | (.error e, k) => (.error e, k)
      | (.ok directory, k) => (.ok (directory, path.drop finalStart), k)

/-- `RetryWithResolvedParent` -/
def retryWithResolvedParent (operation : D → List Byte → Except Errno α) (k : Descriptors D)
    (path : List Byte) :
    Except Errno α × Descriptors D :=
  match resolveParent fs fresh k path with
  | (.error e, k) => (.error e, k)
  | (.ok (descriptor, component), k) =>
    (match k.lookup descriptor with
      | none => .error .EBADF
      | some d => operation d component, close k descriptor)

/-- The operations on paths: the call of the system, and the other way if the path is too long. -/
def onPath (pathMax : ℕ) (operation : D → List Byte → Except Errno α) (path : List Byte)
    (k : Descriptors D) :
    Except Errno α × Descriptors D :=
  if 0 ∈ path then (.error .EINVAL, k)
  else match fs.call pathMax operation path with
    | .ok a => (.ok a, k)
    | .error e =>
      if e = .ENAMETOOLONG then retryWithResolvedParent fs fresh operation k path else (.error e, k)

/-- The operations that take a directory. -/
structure Operations (D Status : Type) where
  fstatat : D → List Byte → Except Errno Status
  openat (flags mode : ℕ) : D → List Byte → Except Errno ℕ
  unlinkat : D → List Byte → Except Errno Unit
  faccessat (mode : ℕ) : D → List Byte → Except Errno Unit
  symlinkat (target : List Byte) : D → List Byte → Except Errno Unit

variable (pathMax : ℕ) (ops : Operations D β)

/-- `StatPosixPath` -/
def statPosixPath := onPath fs fresh pathMax ops.fstatat

/-- `OpenPosixPath` -/
def openPosixPath (flags mode : ℕ) := onPath fs fresh pathMax (ops.openat flags mode)

/-- `UnlinkPosixPath` -/
def unlinkPosixPath := onPath fs fresh pathMax ops.unlinkat

/-- `AccessPosixPath` -/
def accessPosixPath (mode : ℕ) := onPath fs fresh pathMax (ops.faccessat mode)

/-- `SymlinkPosixPath` -/
def symlinkPosixPath (target path : List Byte) (k : Descriptors D) :
    Except Errno Unit × Descriptors D :=
  if 0 ∈ target then (.error .EINVAL, k) else onPath fs fresh pathMax (ops.symlinkat target) path k

/-! ### Components -/

section Components

variable {front back path : List Byte}

theorem components_of_notMem (h : slash ∉ path) (hne : path ≠ []) : components path = [path] := by
  rw [components, List.splitOn_eq_singleton h]
  simp [hne]

theorem components_append_cons (front back : List Byte) :
    components (front ++ slash :: back) = components front ++ components back := by
  rw [components, List.splitOn_append_cons_self, List.filter_append]
  rfl

theorem components_cons (back : List Byte) : components (slash :: back) = components back :=
  components_append_cons [] back

theorem components_dropWhile (path : List Byte) :
    components (path.dropWhile (· = slash)) = components path := by
  induction path with
  | nil => rfl
  | cons c path ih =>
    by_cases hc : c = slash
    · rw [List.dropWhile_cons_of_pos (by simpa using hc), ih, hc, components_cons]
    · rw [List.dropWhile_cons_of_neg (by simpa using hc)]

/-- The first component, and the others behind the slash that follows it. -/
theorem components_eq_cons (h : path ≠ []) (hhead : path.head? ≠ some slash) :
    components path = path.takeWhile (· ≠ slash) ::
      components (path.drop ((path.takeWhile (· ≠ slash)).length + 1)) := by
  have hne : path.takeWhile (· ≠ slash) ≠ [] := by
    cases path with
    | nil => exact absurd rfl h
    | cons c path =>
      have hc : c ≠ slash := fun hc => hhead (congrArg some hc)
      rw [List.takeWhile_cons_of_pos (by simpa using hc)]
      exact List.cons_ne_nil c _
  induction path using delimited_induction slash with
  | last path hnone =>
    rw [takeWhile_ne_of_notMem hnone, components_of_notMem hnone h,
      List.drop_eq_nil_of_le (by omega)]
    rfl
  | cons front back hfront _ =>
    rw [takeWhile_ne_append hfront] at hne ⊢
    rw [components_append_cons, components_of_notMem hfront hne, List.singleton_append,
      ← List.drop_drop, List.drop_left, List.drop_one, List.tail_cons]

/-- A path that is not only slashes: what is in front of the final component, that, and slashes. -/
theorem exists_final (h : ∃ c ∈ path, c ≠ slash) :
    ∃ front final slashes, path = front ++ final ++ slashes ∧ final ≠ [] ∧ slash ∉ final ∧
      (∀ c ∈ slashes, c = slash) ∧ (front = [] ∨ front.getLast? = some slash) ∧
      findIfReverse (· ≠ slash) path = (front ++ final).length ∧
      findIfReverse (· = slash) (front ++ final) = front.length := by
  rcases findIfReverse_spec (· ≠ slash) path with ⟨-, hnone⟩ |
    ⟨text, c, slashes, rfl, hc, hslashes, hfound⟩
  · obtain ⟨c, hc, hne⟩ := h
    exact absurd (hnone c hc) (by simpa using hne)
  · have hslashes' : ∀ c ∈ slashes, c = slash := fun c hc => by simpa using hslashes c hc
    rcases findIfReverse_spec (· = slash) (text ++ [c]) with ⟨hzero, hnone⟩ |
      ⟨front, d, final, htext, hd, hfinal,
      hfound'⟩
    · refine ⟨[], text ++ [c], slashes, by simp, by simp, ?_, hslashes', .inl rfl, ?_, hzero⟩
      · exact fun hmem => absurd (hnone slash hmem) (by simp)
      · rw [hfound]
        simp
    · have hd' : d = slash := by simpa using hd
      have hne : final ≠ [] := by
        rintro rfl
        have hlast := congrArg List.getLast? htext
        rw [List.getLast?_concat, List.getLast?_concat, Option.some.injEq] at hlast
        rw [hlast] at hc
        exact absurd hd' (by simpa using hc)
      refine ⟨front ++ [d], final, slashes, ?_, hne, ?_, hslashes', .inr ?_, ?_, ?_⟩
      · have hsplit : text ++ c :: slashes = text ++ [c] ++ slashes := by simp
        rw [hsplit, htext]
        simp
      · exact fun hmem => absurd (hfinal slash hmem) (by simp)
      · rw [List.getLast?_concat, hd']
      · rw [hfound]
        have hlength := congrArg List.length htext
        simp only [List.length_append, List.length_cons, List.length_nil] at hlength ⊢
        omega
      · rw [List.append_assoc, List.singleton_append, ← htext, hfound', List.length_append]
        rfl

theorem components_final {final slashes : List Byte} (hne : final ≠ []) (hfinal : slash ∉ final)
    (hslashes : ∀ c ∈ slashes, c = slash) (hfront : front = [] ∨ front.getLast? = some slash) :
    components (front ++ final ++ slashes) = components front ++ [final] := by
  have hend : components (final ++ slashes) = [final] := by
    cases slashes with
    | nil => rw [List.append_nil, components_of_notMem hfinal hne]
    | cons c slashes =>
      rw [hslashes c List.mem_cons_self, components_append_cons, components_of_notMem hfinal hne,
        ← components_dropWhile, List.dropWhile_eq_nil_iff.mpr]
      · rfl
      · exact fun c hc => by simpa using hslashes c (List.mem_cons_of_mem _ hc)
  rcases hfront with rfl | hlast
  · exact hend
  · obtain ⟨front, rfl⟩ := List.getLast?_eq_some_iff.mp hlast
    rw [List.append_assoc, List.append_assoc, List.singleton_append, components_append_cons,
      components_append_cons, hend]
    simp [components]

theorem components_of_slashes (h : ∀ c ∈ path, c = slash) : components path = [] := by
  rw [← components_dropWhile, List.dropWhile_eq_nil_iff.mpr fun c hc => by simpa using h c hc]
  rfl

theorem trailing_append {final slashes : List Byte} (hne : final ≠ []) (hfinal : slash ∉ final)
    (hslashes : ∀ c ∈ slashes, c = slash) : trailing (front ++ final ++ slashes) = slashes := by
  have hhead : ∀ c ∈ ((front ++ final).reverse).head?, decide (c = slash) = false := by
    intro c hc
    rw [List.head?_reverse, List.getLast?_append_of_ne_nil front hne] at hc
    have hmem : c ∈ final := List.mem_of_getLast? hc
    simpa using fun heq : c = slash => hfinal (heq ▸ hmem)
  have hreverse : ∀ c ∈ slashes.reverse, decide (c = slash) = true := by simpa using hslashes
  rw [trailing, List.reverse_append, takeWhile_append_of_head hreverse hhead, List.reverse_reverse]

end Components

/-! ### Walking -/

section Walk

variable {fs} {operation : D → List Byte → Except Errno α}

/-- An operation that looks for a name asks for the permission to search. -/
def AsksSearch (fs : FileSystem D) (operation : D → List Byte → Except Errno α) : Prop :=
  ∀ d component, fs.searchable d = false → operation d component = .error .EACCES

theorem walk_blocked (hop : AsksSearch fs operation) {d : D} (hd : fs.searchable d = false)
    (cs : List (List Byte)) (final : List Byte) :
    ((cs.foldlM fs.lookup d).bind fun d => operation d final) = .error .EACCES := by
  cases cs with
  | nil => exact hop d final hd
  | cons c cs =>
    have hlookup : fs.lookup d c = .error .EACCES := by rw [FileSystem.lookup, hd]; rfl
    rw [List.foldlM_cons, hlookup]
    rfl

/-- The components that are skipped do not change what the operation does. -/
theorem walk_dots (hop : AsksSearch fs operation) (cs : List (List Byte)) (d : D)
    (final : List Byte) :
    ((cs.foldlM fs.lookup d).bind fun d => operation d final) =
      ((cs.filter (· ≠ bytes ".")).foldlM fs.lookup d).bind fun d => operation d final := by
  induction cs generalizing d with
  | nil => rfl
  | cons c cs ih =>
    by_cases hc : c = bytes "."
    · rw [List.filter_cons_of_neg (by simpa using hc), List.foldlM_cons, FileSystem.lookup]
      cases hd : fs.searchable d with
      | true =>
        rw [if_neg (by simp), if_pos hc]
        exact ih d
      | false => exact (walk_blocked hop hd _ final).symm
    · rw [List.filter_cons_of_pos (by simpa using hc), List.foldlM_cons, List.foldlM_cons]
      cases fs.lookup d c with
      | error e => rfl
      | ok d' => exact ih d'

end Walk

/-! ### The resolution by components -/

section Loop

variable {fs fresh} {k : Descriptors D} {f : ℕ} {d : D}

/-- The descriptor is not open. -/
def Closed (k : Descriptors D) (f : ℕ) : Prop := ∀ entry ∈ k, entry.1 ≠ f

/-- What the system opens is not open before. -/
def OpensNew (fresh : Descriptors D → Except Errno ℕ) : Prop := ∀ k f, fresh k = .ok f → Closed k f

/-- No descriptor can be opened, beside those that are open and at most one more. -/
def Exhausted (fresh : Descriptors D → Except Errno ℕ) (k : Descriptors D) (e : Errno) : Prop :=
  fresh k = .error e ∨ ∃ entry, fresh (entry :: k) = .error e

/-- How the loop is left: with a descriptor of the directory, or with none. -/
def Leaves (fresh : Descriptors D → Except Errno ℕ) (k : Descriptors D)
    (result : Except Errno ℕ × Descriptors D) (expected : Except Errno D) : Prop :=
  (∃ e, result = (.error e, k) ∧ (expected = .error e ∨ Exhausted fresh k e)) ∨
    ∃ f d, expected = .ok d ∧ Closed k f ∧ result = (.ok f, (f, d) :: k)

theorem close_cons (hf : Closed k f) : close ((f, d) :: k) f = k := by
  rw [close, List.filter_cons_of_neg (by simp), List.filter_eq_self.mpr fun entry hentry => ?_]
  simpa using hf entry hentry

theorem lookup_cons (k : Descriptors D) (f : ℕ) (d : D) : ((f, d) :: k).lookup f = some d :=
  List.lookup_cons_self

/-- The loop opens the directories that the components name, and closes all but the last one. -/
theorem resolveLoop_spec (hfresh : OpensNew fresh) (hf : Closed k f) {fuel : ℕ} {rest : List Byte}
    (hfuel : rest.length ≤ fuel) :
    Leaves fresh k (resolveLoop fs fresh fuel ((f, d) :: k) f rest)
      (((components rest).filter (· ≠ bytes ".")).foldlM fs.lookup d) := by
  induction fuel generalizing f d rest with
  | zero =>
    rw [List.length_eq_zero_iff.mp (Nat.le_zero.mp hfuel)]
    exact .inr ⟨f, d, rfl, hf, rfl⟩
  | succ fuel ih =>
    rw [resolveLoop, ← components_dropWhile]
    have hlength := List.length_dropWhile_le (fun c => decide (c = slash)) rest
    have hhead : (rest.dropWhile (· = slash)).head? ≠ some slash := by
      intro heq
      have hnot := head_dropWhile (p := fun c => decide (c = slash)) rest slash heq
      simp at hnot
    generalize rest.dropWhile (· = slash) = rest' at hlength hhead ⊢
    dsimp only
    by_cases hnil : rest' = []
    · rw [if_pos hnil, hnil]
      exact .inr ⟨f, d, rfl, hf, rfl⟩
    · have hshort : (rest'.drop ((rest'.takeWhile (· ≠ slash)).length + 1)).length ≤ fuel := by
        have hpos := List.length_pos_iff.mpr hnil
        rw [List.length_drop]
        omega
      rw [if_neg hnil, components_eq_cons hnil hhead]
      split
      · rename_i hdot
        rw [List.filter_cons_of_neg (by simpa using hdot)]
        exact ih hf hshort
      · rename_i hdot
        rw [List.filter_cons_of_pos (by simpa using hdot), List.foldlM_cons, openat, lookup_cons]
        dsimp only
        cases hlookup : fs.lookup d (rest'.takeWhile (· ≠ slash)) with
        | error e => exact .inl ⟨e, congrArg (Prod.mk _) (close_cons hf), .inl rfl⟩
        | ok d' =>
          simp only [Except.bind, openDirectory]
          cases hchild : fresh ((f, d) :: k) with
          | error e =>
            exact .inl ⟨e, congrArg (Prod.mk _) (close_cons hf), .inr (.inr ⟨(f, d), hchild⟩)⟩
          | ok child =>
            -- The descriptor of the child is another one, and that of its parent is closed.
            have hnew := hfresh _ _ hchild
            have hne : f ≠ child := hnew (f, d) List.mem_cons_self
            have hclosed : Closed k child := fun entry hentry =>
              hnew entry (List.mem_cons_of_mem _ hentry)
            have hclose : close ((child, d') :: (f, d) :: k) f = (child, d') :: k := by
              rw [close, List.filter_cons_of_pos (by simpa using hne.symm)]
              exact congrArg _ (close_cons hf)
            simp only [Except.map, hclose]
            exact ih hclosed hshort

end Loop

/-! ### The operations -/

section Operations

variable {fs fresh} {operation : D → List Byte → Except Errno α} {k : Descriptors D}
  {path : List Byte}

theorem components_drop (path : List Byte) :
    components (path.drop (if path.head? = some slash then 1 else 0)) = components path := by
  cases path with
  | nil => rfl
  | cons c path =>
    by_cases hc : c = slash
    · rw [hc, components_cons]
      rfl
    · rw [if_neg (by simpa using hc), List.drop_zero]

theorem resolve_of_slashes (hne : path ≠ []) (h : ∀ c ∈ path, c = slash) :
    fs.resolve operation path = operation fs.root (bytes ".") := by
  rw [FileSystem.resolve, if_neg hne, components_of_slashes h]
  rfl

/-- The result is that of the system, unless no descriptor can be opened, and the open descriptors
are those of before. -/
def Agrees (fresh : Descriptors D → Except Errno ℕ) (k : Descriptors D)
    (result : Except Errno α × Descriptors D) (expected : Except Errno α) : Prop :=
  result.2 = k ∧ (result.1 = expected ∨ ∃ e, result.1 = .error e ∧ Exhausted fresh k e)

theorem retry_of_slashes (hfresh : OpensNew fresh) (h : ∀ c ∈ path, c = slash) (k : Descriptors D) :
    Agrees fresh k (retryWithResolvedParent fs fresh operation k path)
      (operation fs.root (bytes ".")) := by
  have hend : findIfReverse (· ≠ slash) path = 0 := by
    rcases findIfReverse_spec (· ≠ slash) path with ⟨hzero, -⟩ | ⟨front, c, back, rfl, hc, -, -⟩
    · exact hzero
    · exact absurd (h c (by simp)) (by simpa using hc)
  rw [retryWithResolvedParent, resolveParent, if_pos hend, openDirectory]
  cases hroot : fresh k with
  | error e => exact ⟨rfl, .inr ⟨e, rfl, .inl hroot⟩⟩
  | ok f =>
    simp only [Except.map, lookup_cons, close_cons (hfresh k f hroot)]
    exact ⟨rfl, .inl rfl⟩

/-- The resolution by components does the same as that of the path, and leaves no descriptor
open. -/
theorem retry_agrees (hfresh : OpensNew fresh) (hop : AsksSearch fs operation) (hne : path ≠ [])
    (k : Descriptors D) :
    Agrees fresh k (retryWithResolvedParent fs fresh operation k path)
      (fs.resolve operation path) := by
  by_cases hpath : ∃ c ∈ path, c ≠ slash
  · obtain ⟨front, final, slashes, hsplit, hnonempty, hfinal, hslashes, hfront, hend, hstart⟩ :=
      exists_final hpath
    have htake : path.take (front ++ final).length = front ++ final := by
      rw [hsplit, List.take_left]
    have hdrop : path.drop front.length = final ++ slashes := by
      rw [hsplit, List.append_assoc, List.drop_left]
    have htakeFront : path.take front.length = front := by
      rw [hsplit, List.append_assoc, List.take_left]
    have hresolve :
      fs.resolve operation path =
        ((components front).foldlM fs.lookup (fs.start path)).bind fun d =>
        operation d (final ++ slashes) := by
      have hcomponents : components path = components front ++ [final] := by
        rw [hsplit]
        exact components_final hnonempty hfinal hslashes hfront
      have htrailing : trailing path = slashes := by
        rw [hsplit]
        exact trailing_append hnonempty hfinal hslashes
      rw [FileSystem.resolve, if_neg hne, hcomponents, htrailing, List.getLast?_concat,
        List.dropLast_concat]
    have hhead : components (front.drop (if path.head? = some slash then 1 else 0)) =
        components front := by
      cases front with
      | nil => rw [List.drop_nil]
      | cons c front =>
        have hfirst : path.head? = (c :: front).head? := by rw [hsplit]; rfl
        rw [hfirst, components_drop]
    have hlength : (front.drop (if path.head? = some slash then 1 else 0)).length ≤
        front.length := by
      rw [List.length_drop]
      exact Nat.sub_le ..
    have hloop : ∀ f, fresh k = .ok f → Leaves fresh k
        (resolveLoop fs fresh front.length ((f, fs.start path) :: k) f
          (front.drop (if path.head? = some slash then 1 else 0)))
        (((components front).filter (· ≠ bytes ".")).foldlM fs.lookup (fs.start path)) := by
      intro f hf
      rw [← hhead]
      exact resolveLoop_spec hfresh (hfresh k f hf) hlength
    rw [hresolve, walk_dots hop, retryWithResolvedParent, resolveParent]
    dsimp only
    rw [hend, htake, hstart, htakeFront, hdrop, if_neg (by simp [hnonempty])]
    rw [FileSystem.start] at hloop ⊢
    rw [openDirectory]
    cases hopened : fresh k with
    | error e => exact ⟨rfl, .inr ⟨e, rfl, .inl hopened⟩⟩
    | ok f =>
      simp only [Except.map]
      rcases hloop f hopened with ⟨e, hleft, herror⟩ | ⟨f', d, hwalk, hf', hleft⟩
      · rw [hleft]
        refine ⟨rfl, herror.imp (fun hwalk => ?_) fun hexhausted => ⟨e, rfl, hexhausted⟩⟩
        rw [hwalk]
        rfl
      · rw [hleft, hwalk]
        simp only [lookup_cons, close_cons hf']
        exact ⟨rfl, .inl rfl⟩
  · have hall : ∀ c ∈ path, c = slash := by
      intro c hc
      by_contra hne
      exact hpath ⟨c, hc, hne⟩
    rw [resolve_of_slashes hne hall]
    exact retry_of_slashes hfresh hall k

/-- What an operation on a path is to return. -/
def expected (fs : FileSystem D) (operation : D → List Byte → Except Errno α) (path : List Byte) :
    Except Errno α :=
  if 0 ∈ path then .error .EINVAL else fs.resolve operation path

/-- For every path, however long it is, the result is that of the operation on the file that the
path names. Only descriptors that were open before are open afterwards. -/
theorem onPath_agrees {pathMax : ℕ} (hfresh : OpensNew fresh) (hop : AsksSearch fs operation)
    (hmax : 0 < pathMax) (path : List Byte) (k : Descriptors D) :
    Agrees fresh k (onPath fs fresh pathMax operation path k) (expected fs operation path) := by
  rw [onPath, expected]
  split
  · exact ⟨rfl, .inl rfl⟩
  · rw [FileSystem.call]
    by_cases hlong : pathMax ≤ path.length
    · have hne : path ≠ [] := List.ne_nil_of_length_pos (Nat.lt_of_lt_of_le hmax hlong)
      rw [if_pos hlong]
      dsimp only
      rw [if_pos rfl]
      exact retry_agrees hfresh hop hne k
    · rw [if_neg hlong]
      cases hresolve : fs.resolve operation path with
      | ok a => exact ⟨rfl, .inl rfl⟩
      | error e =>
        dsimp only
        split
        · -- A name is too long for the system: the error is the same once more.
          rename_i htoolong
          have hne : path ≠ [] := by
            rintro rfl
            rw [FileSystem.resolve, if_pos rfl] at hresolve
            cases hresolve
            cases htoolong
          rw [← hresolve]
          exact retry_agrees hfresh hop hne k
        · exact ⟨rfl, .inl rfl⟩

end Operations

/-! ### A file system -/

/-- A descriptor above all that are open. -/
def nextDescriptor (k : Descriptors D) : ℕ := k.foldr (fun entry next => max (entry.1 + 1) next) 0

/-- At most eight descriptors. -/
def openNext (k : Descriptors D) : Except Errno ℕ :=
  if k.length < 8 then .ok (nextDescriptor k) else .error (.other 24)

theorem openNext_opensNew : OpensNew (openNext : Descriptors D → Except Errno ℕ) := by
  have hlt : ∀ k : Descriptors D, ∀ entry ∈ k, entry.1 < nextDescriptor k := by
    intro k
    induction k with
    | nil => exact fun entry h => absurd h List.not_mem_nil
    | cons first k ih =>
      intro entry h
      rcases List.mem_cons.mp h with rfl | h
      · exact Nat.lt_of_lt_of_le (Nat.lt_succ_self _) (Nat.le_max_left ..)
      · exact Nat.lt_of_lt_of_le (ih entry h) (Nat.le_max_right ..)
  intro k f h entry hentry
  rw [openNext] at h
  split at h
  · cases h
    exact Nat.ne_of_lt (hlt k entry hentry)
  · cases h

/-- Directories that have all names in each other. -/
def countingFileSystem : FileSystem ℕ := ⟨0, 5, fun _ => true, fun d name => .ok (d + name.length)⟩

/-- Files of all names. -/
def countingOperations : Operations ℕ ℕ :=
  ⟨fun d name => .ok (d + name.length), fun _ _ _ _ => .ok 0, fun _ _ => .ok (),
    fun _ _ _ => .ok (),
    fun _ _ _ => .ok ()⟩

end Paths

end NgLog
