import NgLog.Demangle.Closure
import NgLog.Demangle.Output

/-!
# Safety of the demangler

`demangle` never faults: for every mangled name and every buffer, the run ends, the cursor stays
within the name, writes stay within the buffer, only bytes that the run has written are read back,
and no level counter is decremented below zero. The invariant is a `Frame` over the machine; it is
proved for the primitives of the closure and lifted by the rules of the combinators.

The fuel of the model is accounted for in the frame: with `n` units of fuel left, the depth counter
has reached `65 - n`, and the guards let no call through at 64.

## Main definitions

* `OutputOk` — the output cursor and the remembered name are covered by written bytes
* `Safe`, `Advances`, `safety` — the invariant, the step relation and their frame

## Main results

* `Built.runs_safety` — every built function keeps the frame
* `demangle_safe` — `demangle` returns, and leaves an empty string when it fails
-/

namespace NgLog

namespace Demangle

open Backtracking (Machine Outcome Frame)

variable {w : CString}

/-! ### The buffer -/

/-- This run has written the byte at `i`. -/
def WrittenAt (out : List Cell) (i : ℕ) : Prop := ∃ cell, out[i]? = some cell ∧ cell.written = true

/-- The buffer keeps its size, and written bytes stay written. -/
structure Grows (out out' : List Cell) : Prop where
  size : out'.length = out.length
  written : ∀ i, WrittenAt out i → WrittenAt out' i

theorem Grows.refl (out : List Cell) : Grows out out := ⟨rfl, fun _ h => h⟩

theorem Grows.trans {out₁ out₂ out₃ : List Cell} (h : Grows out₁ out₂) (h' : Grows out₂ out₃) :
    Grows out₁ out₃ := ⟨h'.size.trans h.size, fun i hi => h'.written i (h.written i hi)⟩

theorem writtenAt_set {out : List Cell} {i : ℕ} (b : Byte) (h : i < out.length) :
    WrittenAt (out.set i ⟨b, true⟩) i := ⟨⟨b, true⟩, List.getElem?_set_self h, rfl⟩

theorem grows_set (out : List Cell) (i : ℕ) (b : Byte) : Grows out (out.set i ⟨b, true⟩) := by
  refine ⟨List.length_set, fun j hj => ?_⟩
  by_cases hij : i = j
  · subst hij
    obtain ⟨cell, hcell, -⟩ := hj
    exact writtenAt_set b (List.getElem?_eq_some_iff.mp hcell).1
  · obtain ⟨cell, hcell, hwritten⟩ := hj
    exact ⟨cell, by rw [List.getElem?_set_ne hij, hcell], hwritten⟩

/-- Everything the parser may read back has been written. -/
structure OutputOk (state : State) (out : List Cell) : Prop where
  cur_lt : state.outCur < out.length
  written : ∀ i < state.outCur, WrittenAt out i
  prev : ∀ p ∈ state.prevName, ∀ i < state.prevNameLength.toNat, WrittenAt out (p + i)

theorem OutputOk.grow {state : State} {out out' : List Cell} (h : OutputOk state out)
    (hg : Grows out out') : OutputOk state out' :=
  ⟨hg.size ▸ h.cur_lt, fun i hi => hg.written i (h.written i hi),
    fun p hp i hi => hg.written _ (h.prev p hp i hi)⟩

/-! ### The frame -/

/-- The cursor is within the name and the output can be read back. -/
structure Safe (w : CString) (m : Machine State Store) : Prop where
  cursor_le : m.state.mangledCur ≤ w.length
  output : OutputOk m.state m.store.out

/-- What a parse function does to the machine, whatever it returns. -/
structure Advances (w : CString) (m m' : Machine State Store) : Prop where
  safe : Safe w m'
  cursor_le : m.state.mangledCur ≤ m'.state.mangledCur
  grows : Grows m.store.out m'.store.out
  levels : ∀ level, m'.state.level level = m.state.level level
  steps : m'.store.stepsRemaining ≤ m.store.stepsRemaining

/-- The levels are within their bounds, and `n` units of fuel cover the depth that is left. -/
def Bounded (n : ℕ) (state : State) : Prop :=
  (∀ level, state.level level ≤ maxLevel level) ∧ maxLevel .depth < n + state.level .depth

theorem Advances.refl {m : Machine State Store} (h : Safe w m) : Advances w m m :=
  ⟨h, Nat.le_refl _, .refl _, fun _ => rfl, Nat.le_refl _⟩

theorem Advances.trans {m₁ m₂ m₃ : Machine State Store} (h : Advances w m₁ m₂)
    (h' : Advances w m₂ m₃) : Advances w m₁ m₃ :=
  ⟨h'.safe, Nat.le_trans h.cursor_le h'.cursor_le, h.grows.trans h'.grows,
    fun level => (h'.levels level).trans (h.levels level), Nat.le_trans h'.steps h.steps⟩

theorem Bounded.of_levels {n : ℕ} {state state' : State} (h : Bounded n state)
    (hl : ∀ level, state'.level level = state.level level) : Bounded n state' :=
  ⟨fun level => hl level ▸ h.1 level, hl .depth ▸ h.2⟩

/-- No fault is allowed; progress is a cursor that has moved. -/
def safety (w : CString) (n : ℕ) : Frame Fault State Store where
  allowed _ := False
  inv m := Safe w m ∧ Bounded n m.state
  rel := Advances w
  progress m m' := m.state.mangledCur < m'.state.mangledCur
  rel_refl h := .refl h.1
  rel_trans := Advances.trans
  inv_of_rel h h' := ⟨h'.safe, h.2.of_levels h'.levels⟩
  rel_restore h h' := ⟨⟨h.1.cursor_le, h.1.output.grow h'.grows⟩, Nat.le_refl _, h'.grows,
    fun _ => rfl, h'.steps⟩
  progress_of_rel h h' := Nat.lt_of_lt_of_le h h'.cursor_le
  rel_progress h h' := Nat.lt_of_le_of_lt h.cursor_le h'

/-! ### The output functions -/

/-- No fault, and `Q` of the result. -/
abbrev Always {α : Type} (Q : α → Machine State Store → Prop)
    (r : Except Fault (α × Machine State Store)) : Prop := Outcome (fun _ => False) Q r

theorem Always.bind {α β : Type} {Q : α → Machine State Store → Prop}
    {Q' : β → Machine State Store → Prop} {f : Parser w α} {k : α → Parser w β}
    {m : Machine State Store} (hf : Always Q (f m)) (hk : ∀ a m', Q a m' → Always Q' (k a m')) :
    Always Q' ((f >>= k) m) := Outcome.bind hf hk

/-- The bytes that `str` copies can be read. -/
def Readable (str : Text) (out : List Cell) : Prop :=
  match str with
  | .bytes _ => True
  | .out start length => ∀ i < length, WrittenAt out (start + i)

theorem Readable.grow {str : Text} {out out' : List Cell} (h : Readable str out)
    (hg : Grows out out') : Readable str out' := by
  cases str with
  | bytes text => trivial
  | out start length => exact fun i hi => hg.written _ (h i hi)

theorem Readable.get {str : Text} {m : Machine State Store} (h : Readable str m.store.out) {i : ℕ}
    (hi : i < str.length) : ∃ b, str.get (w := w) i m = .ok (b, m) := by
  cases str with
  | bytes text => exact ⟨_, get_bytes hi m⟩
  | out start length =>
    obtain ⟨cell, hcell, hwritten⟩ := h i hi
    exact ⟨_, readOut_run (w := w) hcell hwritten⟩

/-- What an output function does: the cursor of the mangled name stays where it is. -/
structure Outputs (w : CString) (m m' : Machine State Store) : Prop
    extends Advances w m m' where
  cursor_eq : m'.state.mangledCur = m.state.mangledCur

theorem Outputs.refl {m : Machine State Store} (h : Safe w m) : Outputs w m m :=
  ⟨.refl h, rfl⟩

theorem Outputs.trans {m₁ m₂ m₃ : Machine State Store} (h : Outputs w m₁ m₂)
    (h' : Outputs w m₂ m₃) : Outputs w m₁ m₃ :=
  ⟨h.toAdvances.trans h'.toAdvances, h'.cursor_eq.trans h.cursor_eq⟩

/-- What `Append` does for `n` bytes: unless it overflows it writes all of them. -/
structure Writes (w : CString) (n : ℕ) (m m' : Machine State Store) : Prop
    extends Outputs w m m' where
  fully : m'.state.overflowed = false → m'.state.outCur = m.state.outCur + n

/-- A write to a byte of the buffer, or to none. -/
theorem outputs_wrote {m : Machine State Store} (h : Safe w m) (pos : ℕ) (op : OutputOp) :
    Outputs w m (wrote m pos op) :=
  have hgrows := grows_set m.store.out pos op.byte
  have houtput := h.output.grow hgrows
  ⟨⟨⟨h.cursor_le, ⟨houtput.cur_lt, houtput.written, houtput.prev⟩⟩, Nat.le_refl _, hgrows,
    fun level => by cases level <;> rfl, Nat.le_refl _⟩, rfl⟩

theorem outputs_emitted {m : Machine State Store} (h : Safe w m) (b : Byte)
    (hroom : m.store.out.length - m.state.outCur > 1) : Outputs w m (emitted m b) := by
  have hwrote := outputs_wrote h m.state.outCur (.put b)
  have houtput := hwrote.safe.output
  refine hwrote.trans ⟨⟨⟨h.cursor_le, ⟨?_, fun i hi => ?_, houtput.prev⟩⟩, Nat.le_refl _,
    .refl _, fun level => by cases level <;> rfl, Nat.le_refl _⟩, rfl⟩
  · have := hwrote.grows.size
    simp only [emitted]
    omega
  · rcases Nat.lt_succ_iff_lt_or_eq.mp hi with hlt | heq
    · exact houtput.written i hlt
    · exact heq ▸ writtenAt_set b h.output.cur_lt

theorem outputs_overflown {m : Machine State Store} (h : Safe w m) :
    Outputs w m (overflown m) :=
  ⟨⟨⟨h.cursor_le, ⟨h.output.cur_lt, h.output.written, h.output.prev⟩⟩, Nat.le_refl _, .refl _,
    fun level => by cases level <;> rfl, Nat.le_refl _⟩, rfl⟩

theorem appendLoop_writes {str : Text} :
    ∀ (n i : ℕ) (m : Machine State Store), Safe w m → Readable str m.store.out →
      i + n ≤ str.length →
      Always (fun _ => Writes w n m) (appendLoop (w := w) str n i m)
  | 0, _, _, hm, _, _ => ⟨.refl hm, fun _ => rfl⟩
  | n + 1, i, m, hm, hr, hle => by
    by_cases hroom : m.store.out.length - m.state.outCur > 1
    · obtain ⟨b, hget⟩ := hr.get (w := w) (i := i) (by omega)
      have hadv := outputs_emitted hm b hroom
      rw [appendLoop_step hroom hget]
      refine (appendLoop_writes n (i + 1) _ hadv.safe (hr.grow hadv.grows) (by omega)).mono
        fun _ m' h => ⟨hadv.trans h.toOutputs, fun ho => ?_⟩
      rw [h.fully ho]
      simp only [emitted]
      omega
    · rw [appendLoop_full hroom]
      exact ⟨outputs_overflown hm, fun ho => absurd ho Bool.noConfusion⟩

theorem append_writes {str : Text} {m : Machine State Store} (hm : Safe w m)
    (hr : Readable str m.store.out) :
    Always (fun _ => Writes w str.length m) (append (w := w) str m) := by
  have hloop := appendLoop_writes str.length 0 m hm hr (by omega)
  rcases hrun : appendLoop (w := w) str str.length 0 m with e | ⟨⟨⟩, m'⟩ <;>
    rw [hrun] at hloop
  · exact hloop.elim
  · rw [append_run hrun, if_pos hloop.safe.output.cur_lt]
    split
    · exact hloop
    · exact ⟨hloop.toOutputs.trans (outputs_wrote hloop.safe _ .terminate), hloop.fully⟩

theorem separateAngles_outputs {str : Text} {m : Machine State Store} (hm : Safe w m)
    (hr : Readable str m.store.out) (hlen : 0 < str.length) :
    Always (fun _ => Outputs w m) (separateAngles (w := w) str m) := by
  obtain ⟨b, hget⟩ := hr.get (w := w) hlen
  rw [separateAngles_run hget]
  split
  · rename_i hb
    obtain ⟨cell, hcell, hwritten⟩ := hm.output.written (m.state.outCur - 1) (by omega)
    rw [bind_ok (readOut_run hcell hwritten)]
    split
    · have hspace : Readable (.bytes (bytes " ")) m.store.out := trivial
      exact (append_writes hm hspace).mono fun _ _ h => h.toOutputs
    · exact .refl hm
  · exact .refl hm

theorem outputs_named {m m' : Machine State Store} {start length : ℕ} (hm : Outputs w m m')
    (h : m'.state.outCur = start + length) : Outputs w m (named m' start length) := by
  refine hm.trans ⟨⟨⟨hm.safe.cursor_le, ⟨hm.safe.output.cur_lt, hm.safe.output.written, ?_⟩⟩,
    Nat.le_refl _, .refl _, fun level => by cases level <;> rfl, Nat.le_refl _⟩, rfl⟩
  intro p hp i hi
  obtain rfl : start = p := Option.some.inj hp
  have hi' : i < length := hi
  exact hm.safe.output.written (start + i) (by omega)

theorem appendName_outputs {str : Text} {m : Machine State Store} (hm : Safe w m)
    (hr : Readable str m.store.out) (hlen : 0 < str.length) :
    Always (fun _ => Outputs w m) (appendName (w := w) str m) := by
  have happend := append_writes hm hr
  rcases hrun : append (w := w) str m with e | ⟨⟨⟩, m'⟩ <;> rw [hrun] at happend
  · exact happend.elim
  · obtain ⟨b, hget⟩ := (hr.grow happend.grows).get (w := w) hlen
    rw [appendName_run hrun hget]
    change Outputs w m _
    split
    · rename_i hcond
      exact outputs_named happend.toOutputs (happend.fully hcond.1)
    · exact happend.toOutputs

theorem maybeAppendWithLength_outputs {str : Text} {m : Machine State Store} (hm : Safe w m)
    (hr : Readable str m.store.out) :
    Always (fun b m' => b = true ∧ Outputs w m m')
      (maybeAppendWithLength (w := w) str m) := by
  rw [maybeAppendWithLength, saving_run]
  split
  · rename_i hcond
    have hlen : 0 < str.length := of_decide_eq_true (Bool.and_eq_true_iff.mp hcond).2
    refine (separateAngles_outputs hm hr hlen).bind fun _ m₁ h₁ => ?_
    refine (appendName_outputs h₁.safe (hr.grow h₁.grows) hlen).bind fun _ m₂ h₂ => ?_
    exact ⟨rfl, h₁.trans h₂⟩
  · exact ⟨rfl, .refl hm⟩

theorem appendAll_outputs :
    ∀ (texts : List String) (m : Machine State Store), Safe w m →
      Always (fun b m' => b = true ∧ Outputs w m m') (appendAll (w := w) texts m)
  | [], _, hm => ⟨rfl, .refl hm⟩
  | text :: texts, m, hm => by
    have htext : Readable (.bytes (bytes text)) m.store.out := trivial
    refine Always.bind (maybeAppendWithLength_outputs hm htext) fun b m₁ h₁ => ?_
    obtain ⟨rfl, h₁⟩ := h₁
    exact (appendAll_outputs texts m₁ h₁.safe).mono fun _ _ h₂ => ⟨h₂.1, h₁.trans h₂.2⟩

/-! ### The primitives keep the frame -/

variable {n : ℕ} {s : Bool}

theorem advances_moved {m : Machine State Store} {k : ℕ} (hm : Safe w m)
    (hk : m.state.mangledCur + k ≤ w.length) : Advances w m (moved m k) :=
  ⟨⟨hk, ⟨hm.output.cur_lt, hm.output.written, hm.output.prev⟩⟩, Nat.le_add_right _ _, .refl _,
    fun level => by cases level <;> rfl, Nat.le_refl _⟩

theorem runs_scan {f : Parser w Bool}
    (hf : Scans f fun b k => s = true → b = true → 0 < k) : (safety w n).Runs s f := by
  intro m hm
  obtain ⟨b, k, hrun, hk, hpos⟩ := hf m hm.1.cursor_le
  rw [hrun]
  exact ⟨advances_moved hm.1 hk, fun hs hb => Nat.lt_add_of_pos_right (hpos hs hb)⟩

theorem runs_control {g : State → State} (hg : Control g) :
    (safety w n).Runs false (modify g : Parser w Bool) := by
  intro m hm
  obtain ⟨nestLevel, append, skipSeparator, pendingRefQualifier, h⟩ := hg m.state
  refine ⟨?_, nofun⟩
  rw [h]
  exact ⟨⟨hm.1.cursor_le, ⟨hm.1.output.cur_lt, hm.1.output.written, hm.1.output.prev⟩⟩,
    Nat.le_refl _, .refl _, fun level => by cases level <;> rfl, Nat.le_refl _⟩

theorem runs_text {str : Text} {m : Machine State Store} (hm : (safety w n).inv m)
    (hr : Readable str m.store.out) : Always ((safety w n).Post false m)
      (maybeAppendWithLength (w := w) str m) :=
  (maybeAppendWithLength_outputs hm.1 hr).mono fun _ _ h => ⟨h.2.toAdvances, nofun⟩

/-- Skipping bytes that a function has checked, after it has written some output. -/
theorem outputs_advance {m m' : Machine State Store} {count : ℕ} (h : Outputs w m m')
    (hcount : m.state.mangledCur + count ≤ w.length) (hs : s = true → 0 < count) :
    Always ((safety w n).Post s m) (advance (w := w) count m') := by
  have hcur := h.cursor_eq
  rw [advance_run (by omega)]
  refine ⟨h.toAdvances.trans (advances_moved h.safe (by omega)), fun hstrict _ => ?_⟩
  have := hs hstrict
  simp only [safety, moved]
  omega

theorem runs_accept {α : Type} {found : Parser w (Option α)} {length : α → ℕ}
    {texts : α → List String} (hf : Finds found length texts) :
    (safety w n).Runs s (acceptAbbrev found length texts) := by
  intro m hm
  obtain ⟨p, hrun, hp⟩ := hf m hm.1.cursor_le
  rw [acceptAbbrev, bind_ok hrun]
  cases p with
  | none => exact Frame.runs_pure_false m hm
  | some p =>
    obtain ⟨hpos, hle, -⟩ := hp p rfl
    refine Always.bind (appendAll_outputs (texts p) m hm.1) fun b m₁ h₁ => ?_
    obtain ⟨rfl, h₁⟩ := h₁
    exact outputs_advance h₁ hle fun _ => hpos

/-- No NUL among the next bytes: they lie before the terminator. -/
theorem le_length_of_atLeastNumCharsRemaining {cur count : ℕ} (hcur : cur ≤ w.length)
    (h : ((w.array.drop cur).take count).contains 0 = false) : cur + count ≤ w.length := by
  by_contra hlt
  have hmem : (0 : Byte) ∈ (w.array.drop cur).take count := by
    refine List.mem_iff_getElem?.mpr ⟨w.length - cur, ?_⟩
    rw [List.getElem?_take_of_lt (by omega), List.getElem?_drop]
    have : cur + (w.length - cur) = w.text.length := by
      change cur + (w.text.length - cur) = w.text.length
      have : cur ≤ w.text.length := hcur
      omega
    rw [this, CString.array, List.getElem?_concat_length]
  simp only [List.contains_eq_mem, decide_eq_false_iff_not] at h
  exact h hmem

theorem atLeastNumCharsRemaining_run (count : ℕ) (m : Machine State Store) :
    atLeastNumCharsRemaining (w := w) count m =
      .ok (!((w.array.drop m.state.mangledCur).take count).contains 0, m) := rfl

theorem identifierIsAnonymousNamespace_run (length : ℤ) (m : Machine State Store) :
    identifierIsAnonymousNamespace (w := w) length m =
      .ok (decide (length > 11) && (bytes "_GLOBAL__N_").isPrefixOf (rest w m.state), m) := rfl

theorem runs_identifier {length : ℤ} (hs : s = true → 0 < length) :
    (safety w n).Runs s (parseIdentifier (w := w) length) := by
  intro m hm
  rw [parseIdentifier, bind_ok (atLeastNumCharsRemaining_run _ _)]
  split
  · exact Frame.runs_pure_false m hm
  · rename_i hguard
    have hle : m.state.mangledCur + length.toNat ≤ w.length :=
      le_length_of_atLeastNumCharsRemaining hm.1.cursor_le (by simp_all)
    have hpos (h : s = true) : 0 < length.toNat := by
      have := hs h
      omega
    rw [bind_ok (identifierIsAnonymousNamespace_run _ _)]
    split
    · have hr : Readable (.bytes (bytes "(anonymous namespace)")) m.store.out := trivial
      exact Always.bind (maybeAppendWithLength_outputs hm.1 hr) fun _ m₁ h₁ =>
        outputs_advance h₁.2 hle hpos
    · have hr : Readable (.bytes ((rest w m.state).take length.toNat)) m.store.out := trivial
      exact Always.bind (maybeAppendWithLength_outputs hm.1 hr) fun _ m₁ h₁ =>
        outputs_advance h₁.2 hle hpos

theorem runs_prevName {lead : List String} :
    (safety w n).Runs false (appendPrevName (w := w) lead) := by
  intro m hm
  rw [appendPrevName, saving_run]
  split
  · rename_i hsome
    obtain ⟨p, hp⟩ := Option.isSome_iff_exists.mp hsome
    have hr : Readable m.state.prevNameText m.store.out := by
      rw [State.prevNameText, hp]
      exact hm.1.output.prev p hp
    refine Always.bind (appendAll_outputs lead m hm.1) fun b m₁ h₁ => ?_
    obtain ⟨rfl, h₁⟩ := h₁
    exact (maybeAppendWithLength_outputs h₁.safe (hr.grow h₁.grows)).mono fun _ _ h₂ =>
      ⟨(h₁.trans h₂.2).toAdvances, nofun⟩
  · exact Frame.runs_pure_false m hm

theorem outputs_cancelled {m : Machine State Store} (hm : Safe w m) (before : ℕ) :
    Outputs w m (cancelled m before) := by
  have hwrote := outputs_wrote hm (m.state.outCur - 2) (.cut (m.state.outCur == before + 2))
  have houtput := hwrote.safe.output
  refine hwrote.trans ⟨⟨⟨hm.cursor_le, ⟨?_, fun i hi => ?_, houtput.prev⟩⟩, Nat.le_refl _,
    .refl _, fun level => by cases level <;> rfl, Nat.le_refl _⟩, rfl⟩
  · exact Nat.lt_of_le_of_lt (Nat.sub_le _ 2) houtput.cur_lt
  · exact houtput.written i (Nat.lt_of_lt_of_le hi (Nat.sub_le _ 2))

theorem maybeCancelLastSeparator_outputs {m : Machine State Store} (hm : Safe w m)
    (before : ℕ) :
    Always (fun _ => Outputs w m) (maybeCancelLastSeparator (w := w) before m) := by
  by_cases h : (m.state.nestLevel ≥ 1 && m.state.append && m.state.outCur ≥ 2) = true
  · rw [maybeCancelLastSeparator_run _ h (Nat.lt_of_le_of_lt (Nat.sub_le _ 2) hm.output.cur_lt)]
    exact outputs_cancelled hm before
  · rw [maybeCancelLastSeparator_skip h]
    exact .refl hm

theorem runs_and_right {f g : Parser w Bool} (hf : (safety w n).Runs false f)
    (hg : (safety w n).Runs s g) : (safety w n).Runs s (f <&&> g : Parser w Bool) := by
  have h := Frame.runs_and hf hg
  rw [Bool.false_or] at h
  exact h

theorem runs_maybeAppendSeparator :
    (safety w n).Runs false (maybeAppendSeparator (w := w)) := by
  intro m hm
  rw [maybeAppendSeparator, saving_run]
  split
  · exact runs_control (fun st => ⟨st.nestLevel, st.append, false, st.pendingRefQualifier, rfl⟩)
      m hm
  · split
    · exact runs_text hm (show Readable (.bytes (bytes "::")) m.store.out from trivial)
    · exact Frame.runs_pure_true m hm

/-- A component that consumes input when it succeeds, and the separator taken back otherwise. -/
theorem runs_separated {f : Parser w Bool} (hf : (safety w n).Runs true f) :
    (safety w n).Runs true (separated f) := by
  intro m hm
  refine Always.bind (Frame.runs_and runs_maybeAppendSeparator hf m hm) fun b m₁ h₁ => ?_
  cases b with
  | true => exact h₁
  | false =>
    refine Always.bind (maybeCancelLastSeparator_outputs h₁.1.safe _) fun _ m₂ h₂ => ?_
    exact ⟨h₁.1.trans h₂.toAdvances, nofun⟩

/-! ### The guards -/

theorem level_setLevel (state : State) (value : ℕ) (level level' : Level) :
    (state.setLevel value level).level level' =
      if level' = level then value else state.level level' := by
  cases level <;> cases level' <;> rfl

theorem outputOk_setLevel {state : State} {out : List Cell} {value : ℕ} {level : Level} :
    OutputOk (state.setLevel value level) out ↔ OutputOk state out := by
  cases level <;> exact ⟨fun h => ⟨h.1, h.2, h.3⟩, fun h => ⟨h.1, h.2, h.3⟩⟩

theorem mangledCur_setLevel (state : State) (value : ℕ) (level : Level) :
    (state.setLevel value level).mangledCur = state.mangledCur := by
  cases level <;> rfl

/-- A guard has entered its level. -/
def entered (m : Machine State Store) (level : Level) : Machine State Store :=
  ⟨m.state.setLevel (m.state.level level + 1) level, m.store⟩

/-- A guard has left its level. -/
def left (m : Machine State Store) (level : Level) : Machine State Store :=
  ⟨m.state.setLevel (m.state.level level - 1) level, m.store⟩

/-- The body leaves the level where it found it, so the guard can leave it. -/
theorem advances_left {m m' : Machine State Store} {level : Level}
    (h : Advances w (entered m level) m') :
    leaveLevel (w := w) level m' = .ok ((), left m' level) ∧
      Advances w m (left m' level) := by
  have hlevel : m'.state.level level = m.state.level level + 1 := by
    rw [h.levels, entered, level_setLevel, if_pos rfl]
  have hcur := h.cursor_le
  rw [entered, mangledCur_setLevel] at hcur
  refine ⟨if_pos (by omega), ⟨⟨?_, outputOk_setLevel.mpr h.safe.output⟩, ?_, h.grows,
    fun other => ?_, h.steps⟩⟩
  · rw [left, mangledCur_setLevel]
    exact h.safe.cursor_le
  · rw [left, mangledCur_setLevel]
    exact hcur
  · rw [left, level_setLevel]
    split
    · rename_i heq
      rw [hlevel, heq, Nat.add_sub_cancel]
    · rename_i hne
      rw [h.levels, entered, level_setLevel, if_neg hne]

/-- The guard around a body that keeps the frame of one level up. -/
theorem runs_guardLevel {level : Level} {f : Parser w Bool} {n' : ℕ}
    (hbounded : ∀ state, Bounded n' state → state.level level < maxLevel level →
      Bounded n (state.setLevel (state.level level + 1) level))
    (hf : (safety w n).Runs s f) : (safety w n').Runs s (guardLevel level f) := by
  intro m hm
  by_cases hlevel : m.state.level level < maxLevel level
  · have henter : enterLevel (w := w) level m = .ok (true, entered m level) :=
      if_pos hlevel
    have hsafe : Safe w (entered m level) := by
      refine ⟨?_, outputOk_setLevel.mpr hm.1.output⟩
      rw [entered, mangledCur_setLevel]
      exact hm.1.cursor_le
    rw [guardLevel, bind_ok henter, if_pos rfl]
    refine Always.bind (hf _ ⟨hsafe, hbounded _ hm.2 hlevel⟩) fun b m₁ h₁ => ?_
    obtain ⟨hleave, hadv⟩ := advances_left h₁.1
    rw [bind_ok hleave]
    refine ⟨hadv, fun hs hb => ?_⟩
    have hprog : (entered m level).state.mangledCur < m₁.state.mangledCur := h₁.2 hs hb
    rw [entered, mangledCur_setLevel] at hprog
    change m.state.mangledCur < (left m₁ level).state.mangledCur
    rw [left, mangledCur_setLevel]
    exact hprog
  · have henter : enterLevel (w := w) level m = .ok (false, m) := if_neg hlevel
    rw [guardLevel, bind_ok henter, if_neg Bool.false_ne_true]
    exact Frame.runs_pure_false m hm

theorem bounded_setLevel {level : Level} (hlevel : level ≠ .depth) (state : State)
    (h : Bounded n state) (hlt : state.level level < maxLevel level) :
    Bounded n (state.setLevel (state.level level + 1) level) := by
  refine ⟨fun other => ?_, ?_⟩
  · rw [level_setLevel]
    split
    · rename_i heq
      exact heq ▸ hlt
    · exact h.1 other
  · rw [level_setLevel, if_neg hlevel.symm]
    exact h.2

theorem bounded_setDepth (state : State) (h : Bounded (n + 1) state)
    (hlt : state.level .depth < maxLevel .depth) :
    Bounded n (state.setLevel (state.level .depth + 1) .depth) := by
  refine ⟨fun other => ?_, ?_⟩
  · rw [level_setLevel]
    split
    · rename_i heq
      exact heq ▸ hlt
    · exact h.1 other
  · have hdepth := h.2
    rw [level_setLevel, if_pos rfl]
    omega

theorem runs_countStep : (safety w n).Runs false (countStep (w := w)) := by
  intro m hm
  rw [countStep]
  split
  · exact ⟨⟨⟨hm.1.cursor_le, hm.1.output⟩, Nat.le_refl _, .refl _, fun _ => rfl,
      Nat.sub_le _ 1⟩, nofun⟩
  · exact ⟨.refl hm.1, nofun⟩

theorem runs_guardDepth {f : Parser w Bool} (hf : (safety w n).Runs s f) :
    (safety w (n + 1)).Runs s (guardDepth f) :=
  runs_guardLevel bounded_setDepth (runs_and_right runs_countStep hf)

/-- Without fuel the depth would have to exceed its bound. -/
theorem runs_exhausted : (safety w 0).Runs s (fault .outOfFuel : Parser w Bool) := by
  intro m hm
  have hle := hm.2.1 .depth
  have hlt := hm.2.2
  omega

/-! ### Every built function keeps the frame -/

theorem remaining_le {m m' : Machine State Store} (h : Advances w m m') :
    remaining w m' ≤ remaining w m := Nat.sub_le_sub_left h.cursor_le _

theorem remaining_lt {m m' : Machine State Store} (h : Advances w m m')
    (hlt : m.state.mangledCur < m'.state.mangledCur) :
    remaining w m' < remaining w m := by
  have := h.safe.cursor_le
  simp only [remaining]
  omega

theorem runs_scanBind {α : Type} {f : Parser w α} {post : α → ℕ → Prop}
    {k : α → Parser w Bool} (hf : Scans f post)
    (hk : ∀ a i, post a i → (safety w n).Runs s (k a)) :
    (safety w n).Runs s (f >>= k : Parser w Bool) := by
  intro m hm
  obtain ⟨a, i, hrun, hi, hpost⟩ := hf m hm.1.cursor_le
  rw [bind_ok hrun]
  exact (hk a i hpost).after hm (advances_moved hm.1 hi)

theorem Built.runs_safety {f : Parser w Bool} (h : Built n s f) :
    (safety w n).Runs s f := by
  induction h with
  | fail => exact Frame.runs_pure_false
  | succeed => exact Frame.runs_pure_true
  | scan hf => exact runs_scan hf
  | control hg => exact runs_control hg
  | text ht => exact fun m hm => runs_text hm trivial
  | identifier hs => exact runs_identifier hs
  | accept hf => exact runs_accept hf
  | prevName hlead => exact runs_prevName
  | separated hf ih => exact runs_separated ih
  | and_left hf hg ihf ihg => exact Frame.runs_and ihf ihg
  | and_right hf hg ihf ihg => exact runs_and_right ihf ihg
  | or hf hg ihf ihg => exact Frame.runs_or ihf ihg
  | attempt hf ih => exact Frame.runs_attempt ih
  | attemptTwice hc hf hg ihc ihf ihg => exact Frame.runs_attemptTwice ihc ihf ihg
  | branch hc hf hg ihc ihf ihg => exact Frame.runs_branch ihc ihf ihg
  | optional hf ih => exact Frame.runs_optional ih
  | zeroOrMore hf ih =>
    exact Frame.runs_zeroOrMore ih (.inr fun _ _ _ => remaining_lt)
  | parseUntil hf ih =>
    exact Frame.runs_repeatUntil (runs_scan ((scans_stop _).mono nofun)) ih
      (.inr fun _ _ _ => remaining_le) (.inr fun _ _ _ => remaining_lt)
  | saving hk ih => exact Frame.runs_saving ih
  | scanBind hf hk ih => exact runs_scanBind hf ih
  | guardLevel hlevel hf ih => exact runs_guardLevel (bounded_setLevel hlevel) ih
  | guardDepth hf ih => exact runs_guardDepth ih
  | exhausted => exact runs_exhausted
  | weaken hf ih => exact ih.weaken

/-! ### The entry point -/

theorem safe_initMachine {out : List Byte} (h : 0 < out.length) :
    (safety w parseFuel).inv (initMachine out) := by
  refine ⟨⟨Nat.zero_le _, ⟨?_, nofun, nofun⟩⟩, fun level => ?_, Nat.lt_succ_self _⟩
  · simpa only [initMachine, initState, List.length_set, List.length_map] using h
  · cases level <;> exact Nat.zero_le _

theorem length_initMachine (out : List Byte) : (initMachine out).store.out.length = out.length := by
  simp only [initMachine, List.length_set, List.length_map]

/-- What `Demangle` promises of its result. -/
def Finished (w : CString) (out : List Byte) (accepted : Bool) (m : Machine State Store) :
    Prop :=
  m.state.mangledCur ≤ w.length ∧ (outBytes m).length = out.length ∧
    (accepted = false → (outBytes m)[0]? = some 0)

theorem finished_failed {out : List Byte} (h : 0 < out.length) {m : Machine State Store}
    (hm : Advances w (initMachine out) m) :
    Always (Finished w out)
      ((writeOut (w := w) 0 .terminate >>= fun _ => (pure false : Parser w Bool)) m) := by
  have hsize : m.store.out.length = out.length := hm.grows.size.trans (length_initMachine out)
  have hlt : 0 < m.store.out.length := hsize.symm ▸ h
  rw [bind_ok (writeOut_run .terminate hlt)]
  refine ⟨hm.safe.cursor_le, ?_, fun _ => ?_⟩
  · simpa only [wrote, outBytes, List.length_map, List.length_set] using hsize
  · rw [wrote, outBytes, List.getElem?_map, List.getElem?_set_self hlt]
    rfl

theorem always_finished (w : CString) {out : List Byte} (h : 0 < out.length) :
    Always (Finished w out) (demangle w out) := by
  let _ := forwardAt w parseFuel
  have _ := forwardBuilt_forwardAt w parseFuel
  have hbuilt : Built parseFuel false (parseTopLevelMangledName (w := w)) :=
    built_parseTopLevelMangledName
  have hparse := hbuilt.runs_safety (initMachine out) (safe_initMachine h)
  rw [demangle, if_neg (Nat.pos_iff_ne_zero.mp h)]
  refine Always.bind hparse fun accepted m hm => ?_
  split
  · rw [saving_run]
    split
    · refine ⟨hm.1.safe.cursor_le, ?_, nofun⟩
      rw [outBytes, List.length_map, hm.1.grows.size, length_initMachine]
    · exact finished_failed h hm.1
  · exact finished_failed h hm.1

/-- `Demangle` always returns without a fault: it terminates within its fuel, its cursor stays in
the mangled name, it writes only to the caller's buffer and reads back only what it has written.
When it fails it leaves the empty string. -/
theorem demangle_safe (w : CString) (out : List Byte) (h : 0 < out.length) :
    ∃ accepted m, demangle w out = .ok (accepted, m) ∧ Finished w out accepted m := by
  have hrun := always_finished w h
  rcases hr : demangle w out with e | ⟨accepted, m⟩ <;> rw [hr] at hrun
  · exact hrun.elim
  · exact ⟨accepted, m, rfl, hrun⟩

/-- The safety theorem at a name that ends in its length, and a buffer of one byte. -/
theorem demangle_safe_truncated : 0 < [(7 : Byte)].length ∧ ∃ accepted m,
    demangle (.ofString "_Z3fo") [7] = .ok (accepted, m) ∧
      Finished (.ofString "_Z3fo") [7] accepted m :=
  ⟨by decide, demangle_safe (.ofString "_Z3fo") [7] (by decide)⟩

end Demangle

end NgLog
