import Mathlib.Data.List.TakeWhile
import NgLog.Unicode.Analysis
import NgLog.Unicode.WidePieces

/-!
# The chunks that a writer of wide text gets

A wide text is passed to its writer in chunks of at most `kMaximumWideChunkLength` units, and
narrow text is converted in chunks of as many bytes. An end that the limit would place within a
surrogate pair, or within the bytes of a character, is moved back. `WriteWideAsChunks` leaves out
the NUL units, at which a chunk ends too.

A writer that takes only a part of a chunk is passed the rest of it, which ends where the chunk
ended. So every end is one that the code has chosen, however much the writer takes.

## Main definitions

* `writeWideAsChunks` — the function; `writeWideUnchanged` and `writeUtf8AsWide` are the others
* `Placed` — where the chunks that a writer was passed lie in the text
* `utf8Chunks` — the chunks in which narrow text is converted

## Main results

* `writeAll_passing` — one chunk, for any writer that takes a part of what it is passed
* `utf8ChunkLength_spec` — what the end of a chunk of bytes is preceded or followed by
* `chunks_spec` — the writer gets the text, in chunks whose ends divide no character
-/

namespace NgLog

namespace Utf8

open Unicode

/-! ### The code -/

/-- The outer loop of `WriteWideAsChunks`, from an offset on. -/
def writeChunks (writer : WideWriter) (input : List UInt16) (out : WideOutput) :
    Bool × WideOutput :=
  let rest := input.dropWhile (· = 0)
  if rest = [] then (true, out)
  else
    let writable := (rest.take (wideChunkLength rest)).takeWhile (· ≠ 0)
    if writable = [] then writeChunks writer (rest.drop 1) out
    else
      match writeAll writer writable.length writable out with
      | (false, out) => (false, out)
      | (true, out) => writeChunks writer (rest.drop writable.length) out
  termination_by input.length
  decreasing_by
    · have hpos := List.length_pos_iff.mpr ‹¬input.dropWhile (· = 0) = []›
      have hle := (List.dropWhile_suffix (l := input) (· = 0)).length_le
      rw [List.length_drop]
      omega
    · have hpos := List.length_pos_iff.mpr ‹¬input.dropWhile (· = 0) = []›
      have hle := (List.dropWhile_suffix (l := input) (· = 0)).length_le
      have hwritable : 0 < writable.length := List.length_pos_iff.mpr ‹¬writable = []›
      rw [List.length_drop]
      change _ - writable.length < _
      omega

/-- `WriteWideAsChunks`. -/
def writeWideAsChunks (input : WideText .utf16) (writer : Option WideWriter) (out : WideOutput) :
    Bool × WideOutput :=
  match input, writer with
  | .null (_ + 1), _ => (false, out)
  | _, none => (false, out)
  | .null 0, some writer => writeChunks writer [] out
  | .units units, some writer => writeChunks writer units out

/-- The chunks that `WriteUtf8AsWide` converts. -/
def utf8Chunks (input : List Byte) : List (List Byte) :=
  if input = [] ∨ utf8ChunkLength input = 0 then []
  else input.take (utf8ChunkLength input) :: utf8Chunks (input.drop (utf8ChunkLength input))
  termination_by input.length
  decreasing_by
    obtain ⟨hne, hlength⟩ := not_or.mp ‹¬(input = [] ∨ utf8ChunkLength input = 0)›
    have hpos := List.length_pos_iff.mpr hne
    rw [List.length_drop]
    omega

/-- Converts chunks and writes the results, until one of the two fails. -/
def writeConverted (multiByteToWideChar : MultiByteToWideChar) (writer : WideWriter) :
    List (List Byte) → WideOutput → Bool × WideOutput
  | [], out => (true, out)
  | chunk :: chunks, out =>
    let wide := multiByteToWideChar chunk kMaximumWideChunkLength
    if wide = [] then (false, out)
    else
      match writeAll writer wide.length wide out with
      | (false, out) => (false, out)
      | (true, out) => writeConverted multiByteToWideChar writer chunks out

/-! ### What a writer is passed -/

/-- A writer that takes a part of every chunk, or all of it. -/
def Accepting (writer : WideWriter) : Prop :=
  ∀ chunks chunk, chunk ≠ [] → ¬Fails writer chunks chunk

/-- The output after some chunks. -/
def replay (writer : WideWriter) (chunks : List (List UInt16)) : WideOutput :=
  chunks.foldl (fun out chunk => out.pass writer chunk) ⟨[], []⟩

/-- Where the chunks lie in the text: each is followed by a cut that divides no surrogate pair, and
the units before it are those that the writer has taken, apart from the ones that are left out. -/
def Placed (writer : WideWriter) (keep : UInt16 → Bool) (input : List UInt16)
    (chunks : List (List UInt16)) : Prop :=
  ∀ earlier chunk later, chunks = earlier ++ chunk :: later →
    chunk ≠ [] ∧ chunk.length ≤ kMaximumWideChunkLength ∧
      ∃ before after, input = before ++ chunk ++ after ∧
        before.filter keep = (replay writer earlier).written ∧
        Cut (unitValues (before ++ chunk)) (unitValues after)

/-- The state of a loop that has passed the units before an offset. -/
structure Passing (writer : WideWriter) (keep : UInt16 → Bool) (input before : List UInt16)
    (out : WideOutput) : Prop where
  replayed : replay writer out.chunks = out
  written : out.written = before.filter keep
  placed : Placed writer keep input out.chunks

section Passing

variable {writer : WideWriter} {keep : UInt16 → Bool} {input before rest after : List UInt16}
  {out : WideOutput}

theorem passing_init (writer : WideWriter) (keep : UInt16 → Bool) (input : List UInt16) :
    Passing writer keep input [] ⟨[], []⟩ where
  replayed := rfl
  written := rfl
  placed := by
    intro earlier chunk later h
    exact absurd h.symm (by simp)

/-- One call of the writer. -/
theorem Passing.pass (h : Passing writer keep input before out)
    (hinput : input = before ++ rest ++ after) (hne : rest ≠ [])
    (hlength : rest.length ≤ kMaximumWideChunkLength)
    (hcut : Cut (unitValues (before ++ rest)) (unitValues after))
    (hkeep : ∀ unit ∈ rest, keep unit = true) (n : ℕ) (hn : n = (writer out.chunks rest).2) :
    Passing writer keep input (before ++ rest.take n) (out.pass writer rest) where
  replayed := by
    rw [WideOutput.pass, replay, List.foldl_append]
    change (replay writer out.chunks).pass writer rest = _
    rw [h.replayed, WideOutput.pass]
  written := by
    have htake : (rest.take n).filter keep = rest.take n :=
      List.filter_eq_self.mpr fun unit hunit => hkeep unit (List.mem_of_mem_take hunit)
    rw [WideOutput.pass, List.filter_append, htake, ← h.written, hn]
  placed := by
    intro earlier chunk later hchunks
    rw [WideOutput.pass] at hchunks
    rcases List.eq_nil_or_concat' later with rfl | ⟨later, last, rfl⟩
    · obtain ⟨rfl, hchunk⟩ := List.append_inj' hchunks rfl
      obtain rfl := (List.cons.inj hchunk).1
      exact ⟨hne, hlength, before, after, hinput, by rw [h.replayed, h.written], hcut⟩
    · rw [← List.cons_append, ← List.append_assoc] at hchunks
      exact h.placed earlier chunk later (List.append_inj' hchunks rfl).1

/-- One chunk, by induction on what is left of it. -/
theorem writeAll_passing (hwriter : Accepting writer) (maximumChunkLength : ℕ)
    (h : Passing writer keep input before out) (hinput : input = before ++ rest ++ after)
    (hmax : rest.length ≤ maximumChunkLength) (hlength : rest.length ≤ kMaximumWideChunkLength)
    (hcut : Cut (unitValues (before ++ rest)) (unitValues after))
    (hkeep : ∀ unit ∈ rest, keep unit = true) :
    ∃ out', writeAll writer maximumChunkLength rest out = (true, out') ∧
      Passing writer keep input (before ++ rest) out' := by
  induction hn : rest.length using Nat.strongRecOn generalizing rest before out with
  | _ n ih =>
    by_cases hne : rest = []
    · subst hne
      rw [writeAll, if_pos rfl, List.append_nil]
      exact ⟨out, rfl, h⟩
    · have htake : rest.take maximumChunkLength = rest := List.take_of_length_le hmax
      have hfails := hwriter out.chunks rest hne
      have hpos : (writer out.chunks rest).2 ≠ 0 := fun hzero => hfails (.inr (.inl hzero))
      rw [writeAll, if_neg hne, htake, if_neg hfails]
      have hpass := h.pass hinput hne hlength hcut hkeep _ rfl
      have hsplit : before ++ rest =
          before ++ rest.take (writer out.chunks rest).2 ++
            rest.drop (writer out.chunks rest).2 := by
        rw [List.append_assoc, List.take_append_drop]
      have hdrop : (rest.drop (writer out.chunks rest).2).length < rest.length := by
        have hrest := List.length_pos_iff.mpr hne
        rw [List.length_drop]
        omega
      rw [hsplit] at hinput hcut ⊢
      exact ih _ (hn ▸ hdrop) hpass hinput (by omega) (by omega) hcut
        (fun unit hunit => hkeep unit (List.mem_of_mem_drop hunit)) rfl

/-- Units that are left out. -/
theorem Passing.skip (h : Passing writer keep input before out) {skipped : List UInt16}
    (hskipped : ∀ unit ∈ skipped, keep unit = false) :
    Passing writer keep input (before ++ skipped) out where
  replayed := h.replayed
  written := by
    have hnil : skipped.filter keep = [] := List.filter_eq_nil_iff.mpr fun unit hunit => by
      simp [hskipped unit hunit]
    rw [List.filter_append, hnil, List.append_nil, h.written]
  placed := h.placed

end Passing

/-! ### The ends of chunks of units -/

theorem wideChunkLength_le (input : List UInt16) :
    wideChunkLength input ≤ input.length ∧ wideChunkLength input ≤ kMaximumWideChunkLength := by
  rw [wideChunkLength]
  split <;> omega

/-- What precedes a surrogate does not matter for a cut. -/
theorem cut_append_left {u u' v : List UInt32} (h : Cut u' v) (hne : u' ≠ []) :
    Cut (u ++ u') v := by
  intro before high low after hu hv
  obtain ⟨first, last, rfl⟩ := (List.eq_nil_or_concat' u').resolve_left hne
  rw [← List.append_assoc] at hu
  obtain ⟨-, hlast⟩ := List.append_inj' hu rfl
  exact h first high low after (by rw [hlast]) hv

/-- The end of a chunk divides no surrogate pair: it follows no high surrogate, or it has been moved
back before one. -/
theorem cut_wideChunkLength (input : List UInt16) :
    Cut (unitValues (input.take (wideChunkLength input)))
      (unitValues (input.drop (wideChunkLength input))) := by
  intro before high low after hu hv hhigh hlow
  obtain ⟨l, ends, htake, -, hends⟩ := List.map_eq_append_iff.mp hu
  obtain ⟨last, rfl, rfl⟩ := List.map_eq_singleton_iff.mp hends
  obtain ⟨next, l', hdrop, rfl, -⟩ := List.map_eq_cons_iff.mp hv
  have hinput : input = l ++ last :: next :: l' := by
    rw [← List.take_append_drop (wideChunkLength input) input, htake, hdrop, List.append_assoc]
    rfl
  have hlength : wideChunkLength input = l.length + 1 := by
    have hle := (wideChunkLength_le input).1
    have htakeLength := congrArg List.length htake
    rw [List.length_take, List.length_append, List.length_singleton] at htakeLength
    omega
  have hlast : input[l.length]? = some last := by
    rw [hinput, List.getElem?_append_right (Nat.le_refl _), Nat.sub_self]
    rfl
  have hnext : input[l.length + 1]? = some next := by
    rw [hinput, List.getElem?_append_right (Nat.le_add_right ..), Nat.add_sub_cancel_left]
    rfl
  have hlt : l.length + 1 < input.length := by
    rw [hinput, List.length_append, List.length_cons, List.length_cons]
    omega
  rw [wideChunkLength] at hlength
  split_ifs at hlength with hmoved
  -- the limit lies behind a high surrogate, and so the next unit is one
  · have hindex : min input.length kMaximumWideChunkLength - 1 = l.length + 1 := hlength
    rw [hindex, hnext, Option.any_some, decide_eq_true_iff] at hmoved
    have hnextHigh : IsHighSurrogate next.toUInt32 := hmoved.2
    exact not_isLowSurrogate_of_high hnextHigh hlow
  · rw [hlength, Nat.add_sub_cancel, hlast, Option.any_some, decide_eq_true_iff] at hmoved
    exact hmoved ⟨hlt, hhigh⟩

theorem take_wideChunkLength_ne_nil {rest : List UInt16} (hne : rest ≠ []) :
    rest.take (wideChunkLength rest) ≠ [] := by
  rw [Ne, List.take_eq_nil_iff]
  exact fun h => h.elim (Nat.ne_of_gt (wideChunkLength_pos hne)) hne

theorem cut_chunk (before : List UInt16) {rest : List UInt16} (hne : rest ≠ []) :
    Cut (unitValues (before ++ rest.take (wideChunkLength rest)))
      (unitValues (rest.drop (wideChunkLength rest))) := by
  rw [unitValues, List.map_append]
  refine cut_append_left (cut_wideChunkLength rest) ?_
  exact fun hnil => take_wideChunkLength_ne_nil hne (List.map_eq_nil_iff.mp hnil)

/-! ### The functions that write wide text -/

/-- Chunk by chunk, by induction on the units that are left. -/
theorem writeWideUnchanged_passing {writer : WideWriter} (hwriter : Accepting writer)
    {input before rest : List UInt16} {out : WideOutput}
    (h : Passing writer (fun _ => true) input before out) (hinput : input = before ++ rest) :
    ∃ out', writeWideUnchanged writer rest out = (true, out') ∧
      Passing writer (fun _ => true) input input out' := by
  induction hn : rest.length using Nat.strongRecOn generalizing rest before out with
  | _ n ih =>
    by_cases hne : rest = []
    · subst hne
      rw [List.append_nil] at hinput
      rw [writeWideUnchanged, if_pos rfl]
      exact ⟨out, rfl, hinput ▸ h⟩
    · have hpos := wideChunkLength_pos hne
      have hle := wideChunkLength_le rest
      have hparts : input = before ++ rest.take (wideChunkLength rest) ++
          rest.drop (wideChunkLength rest) := by
        rw [List.append_assoc, List.take_append_drop, hinput]
      obtain ⟨out', hwrite, hpassing⟩ := writeAll_passing hwriter (wideChunkLength rest) h hparts
        (List.length_take_le ..) (Nat.le_trans (List.length_take_le ..) hle.2)
        (cut_chunk before hne) fun _ _ => rfl
      rw [writeWideUnchanged, if_neg hne, hwrite]
      refine ih _ ?_ hpassing hparts rfl
      have hrest := List.length_pos_iff.mpr hne
      rw [← hn, List.length_drop]
      omega

/-- The units that `WriteWideAsChunks` does not leave out. -/
def isWritable (unit : UInt16) : Bool := unit ≠ 0

/-- The part of a chunk before a NUL unit. It is followed by that unit, or by what follows the
chunk. -/
theorem cut_writable (before : List UInt16) {rest : List UInt16} (hne : rest ≠ []) :
    Cut (unitValues (before ++ (rest.take (wideChunkLength rest)).takeWhile isWritable))
      (unitValues (rest.drop
        ((rest.take (wideChunkLength rest)).takeWhile isWritable).length)) := by
  have hchunk := List.takeWhile_append_dropWhile (p := isWritable)
    (l := rest.take (wideChunkLength rest))
  rcases hdrop : (rest.take (wideChunkLength rest)).dropWhile isWritable with _ | ⟨nul, units⟩
  · rw [hdrop, List.append_nil] at hchunk
    rw [hchunk, List.length_take, Nat.min_eq_left (wideChunkLength_le rest).1]
    exact cut_chunk before hne
  · have hnul : isWritable nul = false := by
      have hhead := List.head_dropWhile_not isWritable (l := rest.take (wideChunkLength rest))
        (by rw [hdrop]; exact List.cons_ne_nil _ _)
      simpa only [hdrop, List.head_cons] using hhead
    have hzero : nul = 0 := by simpa [isWritable] using hnul
    have hrest : rest = (rest.take (wideChunkLength rest)).takeWhile isWritable ++
        (nul :: units ++ rest.drop (wideChunkLength rest)) := by
      rw [← List.append_assoc, ← hdrop, List.takeWhile_append_dropWhile, List.take_append_drop]
    have hfollowing := congrArg
      (List.drop ((rest.take (wideChunkLength rest)).takeWhile isWritable).length) hrest
    rw [List.drop_left] at hfollowing
    rw [hfollowing, hzero]
    exact cut_of_not_isLowSurrogate _ (by decide) _

/-- The first unit of a chunk that follows the NUL units is none of them. -/
theorem writable_ne_nil {rest : List UInt16} (hne : rest.dropWhile (· = 0) ≠ []) :
    ((rest.dropWhile (· = 0)).take (wideChunkLength (rest.dropWhile (· = 0)))).takeWhile
      isWritable ≠ [] := by
  have hhead := List.head_dropWhile_not (fun unit : UInt16 => unit = 0) hne
  have hpos := wideChunkLength_pos hne
  obtain ⟨first, units, hrest⟩ := List.exists_cons_of_ne_nil hne
  simp only [hrest, List.head_cons] at hhead
  have hfirst : isWritable first = true := by simpa [isWritable] using hhead
  rw [hrest] at hpos ⊢
  obtain ⟨k, hk⟩ := Nat.exists_eq_succ_of_ne_zero (Nat.ne_of_gt hpos)
  rw [hk, List.take_succ_cons, List.takeWhile_cons_of_pos hfirst]
  exact List.cons_ne_nil _ _

/-- Chunk by chunk, by induction on the units that are left. -/
theorem writeChunks_passing {writer : WideWriter} (hwriter : Accepting writer)
    {input before rest : List UInt16} {out : WideOutput}
    (h : Passing writer isWritable input before out) (hinput : input = before ++ rest) :
    ∃ out', writeChunks writer rest out = (true, out') ∧
      Passing writer isWritable input input out' := by
  induction hn : rest.length using Nat.strongRecOn generalizing rest before out with
  | _ n ih =>
    have hzeros : ∀ unit ∈ rest.takeWhile (· = 0), isWritable unit = false := fun unit hunit => by
      have hzero := List.mem_takeWhile_imp hunit
      simpa [isWritable] using hzero
    have hskip := h.skip hzeros
    have hsuffix := (List.dropWhile_suffix (l := rest) (· = 0)).length_le
    have hwritable := @writable_ne_nil rest
    rw [← List.takeWhile_append_dropWhile (p := fun unit : UInt16 => unit = 0) (l := rest),
      ← List.append_assoc] at hinput
    rw [writeChunks]
    generalize rest.dropWhile (· = 0) = rest' at hinput hsuffix hwritable
    dsimp only
    by_cases hne : rest' = []
    · subst hne
      rw [List.append_nil] at hinput
      rw [if_pos rfl]
      exact ⟨out, rfl, hinput ▸ hskip⟩
    · have hparts : input = before ++ rest.takeWhile (· = 0) ++
          (rest'.take (wideChunkLength rest')).takeWhile isWritable ++
            rest'.drop ((rest'.take (wideChunkLength rest')).takeWhile isWritable).length := by
        have hstart : (rest'.take (wideChunkLength rest')).takeWhile isWritable <+: rest' :=
          (List.takeWhile_prefix _).trans (List.take_prefix _ _)
        rw [List.append_assoc, List.prefix_iff_eq_append.mp hstart, hinput]
      have hlength : ((rest'.take (wideChunkLength rest')).takeWhile isWritable).length ≤
          kMaximumWideChunkLength :=
        Nat.le_trans (List.takeWhile_prefix _).length_le
          (Nat.le_trans (List.length_take_le ..) (wideChunkLength_le rest').2)
      obtain ⟨out', hwrite, hpassing⟩ := writeAll_passing hwriter _ hskip hparts (Nat.le_refl _)
        hlength (cut_writable _ hne) fun unit hunit => List.mem_takeWhile_imp hunit
      rw [show (fun unit : UInt16 => decide (unit ≠ 0)) = isWritable from rfl, if_neg hne,
        if_neg (hwritable hne), hwrite]
      refine ih _ ?_ hpassing hparts rfl
      have hpos := List.length_pos_iff.mpr (hwritable hne)
      have hrest := List.length_pos_iff.mpr hne
      rw [← hn, List.length_drop]
      omega

/-! ### The ends of chunks of bytes -/

/-- The loop stops at a byte that is no continuation byte, or after `count` bytes that are. -/
theorem chunkBoundary_spec (input : List Byte) (count boundary : ℕ) (h : count ≤ boundary) :
    chunkBoundary input count boundary ≤ boundary ∧
      boundary ≤ chunkBoundary input count boundary + count ∧
      (∀ i, chunkBoundary input count boundary < i → i ≤ boundary →
        (input[i]?).any isContinuation = true) ∧
      ((input[chunkBoundary input count boundary]?).any isContinuation = true →
        chunkBoundary input count boundary + count = boundary) := by
  induction count generalizing boundary with
  | zero => exact ⟨Nat.le_refl _, Nat.le_refl _, fun i hlt hle => by
      rw [chunkBoundary] at hlt
      omega, fun _ => rfl⟩
  | succ count ih =>
    rw [chunkBoundary]
    by_cases hcontinuation : (input[boundary]?).any isContinuation = true
    · rw [if_pos hcontinuation]
      obtain ⟨hle, hge, hall, hstop⟩ := ih (boundary - 1) (by omega)
      refine ⟨by omega, by omega, fun i hlt hi => ?_, fun h => by have := hstop h; omega⟩
      by_cases hlast : i = boundary
      · exact hlast ▸ hcontinuation
      · exact hall i hlt (by omega)
    · rw [if_neg hcontinuation]
      exact ⟨Nat.le_refl _, Nat.le_add_right .., fun i hlt hle => by omega,
        fun h => absurd h hcontinuation⟩

/-- A chunk takes all bytes that are left, or its end is followed by a byte that is no continuation
byte, or the bytes around it are more of them than a character has. -/
theorem utf8ChunkLength_spec {input : List Byte} (hne : input ≠ []) :
    0 < utf8ChunkLength input ∧ utf8ChunkLength input ≤ input.length ∧
      utf8ChunkLength input ≤ kMaximumWideChunkLength ∧
      (utf8ChunkLength input = input.length ∨
        (input[utf8ChunkLength input]?).any isContinuation = false ∨
        3 ≤ utf8ChunkLength input ∧ ∀ i, utf8ChunkLength input ≤ i + 3 →
          i ≤ utf8ChunkLength input → (input[i]?).any isContinuation = true) := by
  have hpos := List.length_pos_iff.mpr hne
  by_cases hshort : input.length ≤ kMaximumWideChunkLength
  · have hend : (input[input.length]?).any isContinuation = false := by
      rw [List.getElem?_eq_none (Nat.le_refl _)]
      rfl
    have hboundary : chunkBoundary input kMaximumContinuationBytes input.length = input.length := by
      rw [kMaximumContinuationBytes, chunkBoundary, hend]
      rfl
    have hlength : utf8ChunkLength input = input.length := by
      rw [utf8ChunkLength, Nat.min_eq_left hshort, hboundary, hend, if_neg]
      simp [hne]
    rw [hlength]
    exact ⟨hpos, Nat.le_refl _, hshort, .inl rfl⟩
  · have hlt : kMaximumWideChunkLength < input.length := Nat.lt_of_not_le hshort
    obtain ⟨hle, hge, hall, hstop⟩ := chunkBoundary_spec input kMaximumContinuationBytes
      kMaximumWideChunkLength (by decide)
    rw [utf8ChunkLength, Nat.min_eq_right (Nat.le_of_lt hlt)]
    generalize chunkBoundary input kMaximumContinuationBytes kMaximumWideChunkLength = boundary
      at hle hge hall hstop ⊢
    rw [kMaximumContinuationBytes] at hge hstop
    rw [kMaximumWideChunkLength] at hlt hle hge hall hstop ⊢
    by_cases hcontinuation : (input[boundary]?).any isContinuation = true
    · have hboundary := hstop hcontinuation
      rw [if_pos (.inr hcontinuation)]
      refine ⟨by omega, by omega, Nat.le_refl _, .inr (.inr ⟨by omega, fun i hi hi' => ?_⟩)⟩
      by_cases hlast : i = boundary
      · exact hlast ▸ hcontinuation
      · exact hall i (by omega) hi'
    · rw [if_neg fun h => h.elim (by omega) hcontinuation]
      exact ⟨by omega, by omega, hle, .inr (.inl (Bool.not_eq_true _ ▸ hcontinuation))⟩

/-- The bytes of a sequence in a text: only the first one is no continuation byte. -/
theorem any_isContinuation_sequence (before : List Byte) {s : List Byte} (after : List Byte)
    (hs : IsSequence s) {j : ℕ} (hj : j < s.length) :
    ((before ++ s ++ after)[before.length + j]?).any isContinuation = decide (0 < j) := by
  rw [List.append_assoc, List.getElem?_append_right (Nat.le_add_right ..),
    Nat.add_sub_cancel_left, List.getElem?_append_left hj, List.getElem?_eq_getElem hj,
    Option.any_some, Bool.eq_iff_iff, isContinuation_iff, decide_eq_true_iff]
  rcases s with _ | ⟨a, s⟩
  · exact absurd hj (Nat.not_lt_zero _)
  · rcases j with _ | j
    · exact iff_of_false hs.continuation_tail.1 (Nat.lt_irrefl 0)
    · exact iff_of_true (hs.continuation_tail.2 _ (List.getElem_mem _)) (Nat.succ_pos j)

/-- The end of a chunk divides no sequence of the text, whatever precedes the chunk. -/
theorem utf8ChunkLength_not_within {front rest before s after : List Byte} (hne : rest ≠ [])
    (hinput : front ++ rest = before ++ s ++ after) (hs : IsSequence s) :
    ¬(before.length < front.length + utf8ChunkLength rest ∧
      front.length + utf8ChunkLength rest < before.length + s.length) := by
  rintro ⟨hbegin, hend⟩
  obtain ⟨-, hle, -, hspec⟩ := utf8ChunkLength_spec hne
  have hlength := congrArg List.length hinput
  simp only [List.length_append] at hlength
  have hbyte : ∀ i, (rest[i]?).any isContinuation =
      ((before ++ s ++ after)[front.length + i]?).any isContinuation := fun i => by
    rw [← hinput, List.getElem?_append_right (Nat.le_add_right ..), Nat.add_sub_cancel_left]
  have hsequence : ∀ i j, front.length + i = before.length + j → j < s.length →
      (rest[i]?).any isContinuation = decide (0 < j) := fun i j hij hj => by
    rw [hbyte, hij, any_isContinuation_sequence before after hs hj]
  rcases hspec with hall | hother | ⟨hthree, hrun⟩
  · omega
  -- the byte at the end of the chunk would be a continuation byte
  · have hwithin := hsequence (utf8ChunkLength rest)
      (front.length + utf8ChunkLength rest - before.length) (by omega) (by omega)
    rw [hother, eq_comm, decide_eq_false_iff_not] at hwithin
    omega
  -- the first byte of the sequence would be one
  · have hfour := hs.length.2
    have hfirst := hsequence (before.length - front.length) 0 (by omega) (by omega)
    rw [hrun _ (by omega) (by omega)] at hfirst
    exact absurd hfirst (by simp)

/-! ### Converting narrow text -/

theorem utf8ChunkLength_pos {input : List Byte} (hne : input ≠ []) : 0 < utf8ChunkLength input :=
  (utf8ChunkLength_spec hne).1

/-- No chunk is empty before the end. -/
theorem eq_nil_of_stops {input : List Byte} (h : input = [] ∨ utf8ChunkLength input = 0) :
    input = [] := by
  rcases h with hnil | hzero
  · exact hnil
  · by_contra hne
    exact Nat.ne_of_gt (utf8ChunkLength_pos hne) hzero

theorem utf8Chunks_nil : utf8Chunks [] = [] := by
  rw [utf8Chunks, if_pos (.inl rfl)]

theorem utf8Chunks_of_ne_nil {input : List Byte} (hne : input ≠ []) :
    utf8Chunks input =
      input.take (utf8ChunkLength input) :: utf8Chunks (input.drop (utf8ChunkLength input)) := by
  rw [utf8Chunks, if_neg]
  exact not_or.mpr ⟨hne, Nat.ne_of_gt (utf8ChunkLength_pos hne)⟩

/-- The function converts the chunks one after another. -/
theorem writeUtf8AsWide_eq (multiByteToWideChar : MultiByteToWideChar) (writer : WideWriter)
    (input : List Byte) (out : WideOutput) :
    writeUtf8AsWide multiByteToWideChar writer input out =
      writeConverted multiByteToWideChar writer (utf8Chunks input) out := by
  induction input using utf8Chunks.induct generalizing out with
  | case1 input hend =>
    obtain rfl := eq_nil_of_stops hend
    rw [writeUtf8AsWide_nil, utf8Chunks_nil, writeConverted]
  | case2 input hcontinues ih =>
    obtain ⟨hne, hzero⟩ := not_or.mp hcontinues
    rw [writeUtf8AsWide, if_neg hne, if_neg hzero, utf8Chunks_of_ne_nil hne, writeConverted]
    refine if_congr Iff.rfl rfl ?_
    rcases writeAll .. with ⟨_ | _, rest⟩
    · rfl
    · exact ih rest

/-- The chunks are the bytes of the text, in order. -/
theorem flatten_utf8Chunks (input : List Byte) : (utf8Chunks input).flatten = input := by
  induction input using utf8Chunks.induct with
  | case1 input hend =>
    obtain rfl := eq_nil_of_stops hend
    rw [utf8Chunks_nil, List.flatten_nil]
  | case2 input hcontinues ih =>
    obtain ⟨hne, -⟩ := not_or.mp hcontinues
    rw [utf8Chunks_of_ne_nil hne, List.flatten_cons, ih, List.take_append_drop]

theorem utf8Chunks_bounded {input chunk : List Byte} (h : chunk ∈ utf8Chunks input) :
    chunk ≠ [] ∧ chunk.length ≤ kMaximumWideChunkLength := by
  induction input using utf8Chunks.induct with
  | case1 input hend =>
    obtain rfl := eq_nil_of_stops hend
    rw [utf8Chunks_nil] at h
    exact absurd h List.not_mem_nil
  | case2 input hcontinues ih =>
    obtain ⟨hne, hzero⟩ := not_or.mp hcontinues
    rw [utf8Chunks_of_ne_nil hne] at h
    rcases List.mem_cons.mp h with rfl | hmem
    · refine ⟨?_, Nat.le_trans (List.length_take_le ..) (utf8ChunkLength_spec hne).2.2.1⟩
      rw [Ne, List.take_eq_nil_iff]
      exact fun h => h.elim hzero hne
    · exact ih hmem

/-- The chunks end between the sequences, by induction on the bytes that are left. -/
theorem utf8Chunks_not_within {front input before s after : List Byte}
    (hinput : front ++ input = before ++ s ++ after) (hs : IsSequence s)
    {chunk : List Byte} {earlier later : List (List Byte)}
    (hchunks : utf8Chunks input = chunk :: earlier ++ later) :
    ¬(before.length < front.length + (chunk :: earlier).flatten.length ∧
      front.length + (chunk :: earlier).flatten.length < before.length + s.length) := by
  induction input using utf8Chunks.induct generalizing front chunk earlier with
  | case1 input hend =>
    obtain rfl := eq_nil_of_stops hend
    rw [utf8Chunks_nil] at hchunks
    exact absurd hchunks.symm (List.cons_ne_nil _ _)
  | case2 input hcontinues ih =>
    obtain ⟨hne, -⟩ := not_or.mp hcontinues
    rw [utf8Chunks_of_ne_nil hne, List.cons_append] at hchunks
    obtain ⟨rfl, hrest⟩ := List.cons.inj hchunks
    have hlength : (input.take (utf8ChunkLength input)).length = utf8ChunkLength input := by
      rw [List.length_take, Nat.min_eq_left (utf8ChunkLength_spec hne).2.1]
    rw [List.flatten_cons, List.length_append, hlength, ← Nat.add_assoc]
    rcases earlier with _ | ⟨second, earlier⟩
    · exact utf8ChunkLength_not_within hne hinput hs
    · have hfront : front ++ input.take (utf8ChunkLength input) ++
          input.drop (utf8ChunkLength input) = before ++ s ++ after := by
        rw [List.append_assoc, List.take_append_drop, hinput]
      have hnext := ih hfront hrest
      rwa [List.length_append, hlength] at hnext

/-! ### The chunks -/

/-- Whatever part of each chunk the writer takes: it gets the units of the text without the NUL
units, or all of them, in order, in chunks with at least one unit whose ends divide no surrogate
pair. And any bytes are converted in chunks with at least one byte whose ends divide no well-formed
sequence. -/
theorem chunks_spec {writer : WideWriter} (hwriter : Accepting writer) :
    (∀ input : List UInt16, ∃ out,
      writeWideAsChunks (.units input) (some writer) ⟨[], []⟩ = (true, out) ∧
        out.written = input.filter (· ≠ 0) ∧ Placed writer (· ≠ 0) input out.chunks) ∧
    (∀ input : List UInt16, ∃ out, writeWideUnchanged writer input ⟨[], []⟩ = (true, out) ∧
      out.written = input ∧ Placed writer (fun _ => true) input out.chunks) ∧
    ∀ input : List Byte, (utf8Chunks input).flatten = input ∧
      (∀ chunk ∈ utf8Chunks input, chunk ≠ [] ∧ chunk.length ≤ kMaximumWideChunkLength) ∧
      (∀ earlier later, utf8Chunks input = earlier ++ later → ∀ before s after,
        input = before ++ s ++ after → IsSequence s →
          ¬(before.length < earlier.flatten.length ∧
            earlier.flatten.length < before.length + s.length)) ∧
      ∀ multiByteToWideChar out, writeUtf8AsWide multiByteToWideChar writer input out =
        writeConverted multiByteToWideChar writer (utf8Chunks input) out := by
  refine ⟨fun input => ?_, fun input => ?_, fun input => ⟨flatten_utf8Chunks input,
    fun _ => utf8Chunks_bounded, fun earlier later hchunks before s after hinput hs => ?_,
    fun convert out => writeUtf8AsWide_eq convert writer input out⟩⟩
  · obtain ⟨out, hwrite, hpassing⟩ :=
      writeChunks_passing hwriter (passing_init writer isWritable input)
        (List.nil_append input).symm
    exact ⟨out, hwrite, hpassing.written, hpassing.placed⟩
  · obtain ⟨out, hwrite, hpassing⟩ := writeWideUnchanged_passing hwriter
      (passing_init writer (fun _ => true) input) (List.nil_append input).symm
    exact ⟨out, hwrite, by rw [hpassing.written, List.filter_true], hpassing.placed⟩
  · rcases earlier with _ | ⟨chunk, earlier⟩
    · exact fun h => Nat.not_lt_zero _ h.1
    · have hwithin := @utf8Chunks_not_within [] _ _ _ _ hinput hs _ _ _ hchunks
      rwa [List.length_nil, Nat.zero_add] at hwithin

/-- The units around a NUL unit, for the writer that takes all of them. -/
theorem chunks_spec_acceptAll : ∃ out,
    writeWideAsChunks (.units [0x41, 0, 0x42]) (some acceptAll) ⟨[], []⟩ = (true, out) ∧
      out.written = [0x41, 0x42] := by
  obtain ⟨out, hwrite, hwritten, -⟩ :=
    (@chunks_spec acceptAll fun chunks _ => not_fails_acceptAll chunks).1 [0x41, 0, 0x42]
  exact ⟨out, hwrite, hwritten⟩

end Utf8

end NgLog
