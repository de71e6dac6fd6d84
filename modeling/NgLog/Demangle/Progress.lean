import NgLog.Demangle.Kept

/-!
# The cursor goes forward

Whatever the machine, as long as its cursor is in the mangled name: a parse function that returns
has not moved the cursor back nor out of the name, and one that has to consume input has moved it
forward when it succeeds. This is the part of safety that needs nothing of the output buffer, the
counters or the fuel, because it promises nothing of a run that faults.

## Main definitions

* `forward` — the frame

## Main results

* `Built.runs_forward` — every built function keeps it
-/

namespace NgLog

namespace Demangle

open Backtracking (Machine Frame)

variable {w : CString}

/-- Faults are let through; progress is a cursor that has moved. -/
def forward (w : CString) : Frame Fault State Store where
  allowed _ := True
  inv m := m.state.mangledCur ≤ w.length
  rel m m' := m.state.mangledCur ≤ m'.state.mangledCur ∧ m'.state.mangledCur ≤ w.length
  progress m m' := m.state.mangledCur < m'.state.mangledCur
  rel_refl h := ⟨Nat.le_refl _, h⟩
  rel_trans h h' := ⟨Nat.le_trans h.1 h'.1, h'.2⟩
  inv_of_rel _ h := h.2
  rel_restore h _ := ⟨Nat.le_refl _, h⟩
  progress_of_rel h h' := Nat.lt_of_lt_of_le h h'.1
  rel_progress h h' := Nat.lt_of_le_of_lt h.1 h'

variable {s : Bool} {m m' : Machine State Store}

/-- A step that leaves the cursor where it is, of a function that does not have to move it. -/
theorem post_of_cursor_eq {b : Bool} (hm : (forward w).inv m)
    (h : m'.state.mangledCur = m.state.mangledCur) : (forward w).Post false m b m' := by
  refine ⟨⟨Nat.le_of_eq h.symm, ?_⟩, fun hs => absurd hs Bool.false_ne_true⟩
  rw [h]
  exact hm

/-- A failure after which the cursor is where it was. -/
theorem post_false_of_cursor_eq (hm : (forward w).inv m)
    (h : m'.state.mangledCur = m.state.mangledCur) : (forward w).Post s m false m' :=
  ⟨(post_of_cursor_eq (b := false) hm h).1, fun _ hb => absurd hb Bool.false_ne_true⟩

/-! ### The primitives keep the frame -/

theorem forward_moved {k : ℕ} (hk : m.state.mangledCur + k ≤ w.length) :
    (forward w).rel m (moved m k) := ⟨Nat.le_add_right _ _, hk⟩

theorem forward_scan {f : Parser w Bool}
    (hf : Scans f fun b k => s = true → b = true → 0 < k) : (forward w).Runs s f := by
  intro m hm
  obtain ⟨b, k, hrun, hk, hpos⟩ := hf m hm
  rw [hrun]
  exact ⟨forward_moved hk, fun hs hb => Nat.lt_add_of_pos_right (hpos hs hb)⟩

theorem forward_scanBind {α : Type} {f : Parser w α} {post : α → ℕ → Prop}
    {k : α → Parser w Bool} (hf : Scans f post)
    (hk : ∀ a i, post a i → (forward w).Runs s (k a)) :
    (forward w).Runs s (f >>= k : Parser w Bool) := by
  intro m hm
  obtain ⟨a, i, hrun, hi, hpost⟩ := hf m hm
  rw [bind_ok hrun]
  exact (hk a i hpost).after hm (forward_moved hi)

theorem forward_control {g : State → State} (hg : Control g) :
    (forward w).Runs false (modify g : Parser w Bool) := by
  intro m hm
  obtain ⟨nestLevel, append, skipSeparator, pendingRefQualifier, h⟩ := hg m.state
  rw [modify_run, h]
  exact post_of_cursor_eq hm rfl

theorem forward_text (text : List Byte) :
    (forward w).Runs false (maybeAppendWithLength (.bytes text) : Parser w Bool) := fun _ hm =>
  (maybeAppendWithLength_prints (.bytes text) hm).mono fun _ _ h => post_of_cursor_eq hm h.2

/-- Skipping bytes after some output. -/
theorem forward_advance (h : Prints w m m') {count : ℕ} (hs : s = true → 0 < count) :
    Partly ((forward w).Post s m) (advance (w := w) count m') := by
  have hcursor := h.2
  by_cases hle : m'.state.mangledCur + count ≤ w.length
  · rw [advance_run hle]
    refine ⟨⟨?_, hle⟩, fun hstrict _ => ?_⟩
    · simp only [moved]
      omega
    · have hpos := hs hstrict
      show m.state.mangledCur < m'.state.mangledCur + count
      omega
  · rw [advance, if_neg hle]
    trivial

theorem forward_accept {α : Type} {found : Parser w (Option α)} {length : α → ℕ}
    {texts : α → List String} (hf : Finds found length texts) :
    (forward w).Runs s (acceptAbbrev found length texts) := by
  intro m hm
  obtain ⟨p, hrun, hp⟩ := hf m hm
  rw [acceptAbbrev, bind_ok hrun]
  cases p with
  | none => exact Frame.runs_pure_false m hm
  | some p =>
    obtain ⟨hpos, -, -⟩ := hp p rfl
    refine Partly.bind (appendAll_prints (texts p) m hm) fun b m₁ h₁ => ?_
    cases b with
    | false => exact post_false_of_cursor_eq hm h₁.2
    | true => exact forward_advance h₁ fun _ => hpos

theorem forward_identifier {length : ℤ} (hs : s = true → 0 < length) :
    (forward w).Runs s (parseIdentifier (w := w) length) := by
  intro m hm
  have hpos (h : s = true) : 0 < length.toNat := by
    have := hs h
    omega
  rw [parseIdentifier, bind_ok (atLeastNumCharsRemaining_run _ _)]
  split
  · exact Frame.runs_pure_false m hm
  · rw [bind_ok (identifierIsAnonymousNamespace_run _ _)]
    split
    · exact Partly.bind (maybeAppendWithLength_prints _ hm) fun _ _ h => forward_advance h hpos
    · exact Partly.bind (maybeAppendWithLength_prints _ hm) fun _ _ h => forward_advance h hpos

theorem forward_prevName (lead : List String) :
    (forward w).Runs false (appendPrevName (w := w) lead) := by
  intro m hm
  rw [appendPrevName, saving_run]
  split
  · refine Partly.bind (appendAll_prints lead m hm) fun b m₁ h₁ => ?_
    cases b with
    | false => exact post_of_cursor_eq hm h₁.2
    | true =>
      exact (maybeAppendWithLength_prints _ h₁.1.cursor_le).mono fun _ _ h₂ =>
        post_of_cursor_eq hm (h₂.2.trans h₁.2)
  · exact Frame.runs_pure_false m hm

theorem forward_maybeAppendSeparator :
    (forward w).Runs false (maybeAppendSeparator (w := w)) := by
  intro m hm
  rw [maybeAppendSeparator, saving_run]
  split
  · exact forward_control
      (fun st => ⟨st.nestLevel, st.append, false, st.pendingRefQualifier, rfl⟩) m hm
  · split
    · exact forward_text _ m hm
    · exact Frame.runs_pure_true m hm

/-- The separator is taken back from the output; the cursor of the name is left alone. -/
theorem maybeCancelLastSeparator_cursor (before : ℕ) (m : Machine State Store) :
    Partly (fun _ m' => m'.state.mangledCur = m.state.mangledCur)
      (maybeCancelLastSeparator (w := w) before m) := by
  by_cases hcond : (m.state.nestLevel ≥ 1 && m.state.append && m.state.outCur ≥ 2) = true
  · by_cases hlt : m.state.outCur - 2 < m.store.out.length
    · rw [maybeCancelLastSeparator_run before hcond hlt]
      exact rfl
    · rw [maybeCancelLastSeparator_error hcond hlt]
      trivial
  · rw [maybeCancelLastSeparator_skip hcond]
    exact rfl

theorem forward_separated {f : Parser w Bool} (hf : (forward w).Runs true f) :
    (forward w).Runs true (separated f) := by
  intro m hm
  refine Partly.bind (Frame.runs_and forward_maybeAppendSeparator hf m hm) fun b m₁ h₁ => ?_
  cases b with
  | true => exact h₁
  | false =>
    refine Partly.bind (maybeCancelLastSeparator_cursor _ m₁) fun _ m₂ h₂ => ?_
    have hrel := (post_of_cursor_eq (b := false) h₁.1.2 h₂).1
    exact ⟨(forward w).rel_trans h₁.1 hrel, fun _ hb => absurd hb Bool.false_ne_true⟩

theorem forward_countStep : (forward w).Runs false (countStep (w := w)) := by
  intro m hm
  rw [countStep]
  split
  · exact post_of_cursor_eq hm rfl
  · exact post_of_cursor_eq hm rfl

/-- Entering and leaving a level does not move the cursor. -/
theorem forward_guardLevel {level : Level} {f : Parser w Bool} (hf : (forward w).Runs s f) :
    (forward w).Runs s (guardLevel level f) := by
  intro m hm
  by_cases hlevel : m.state.level level < maxLevel level
  · have henter : enterLevel (w := w) level m = .ok (true, entered m level) := if_pos hlevel
    have hcursor : (entered m level).state.mangledCur = m.state.mangledCur :=
      mangledCur_setLevel ..
    rw [guardLevel, bind_ok henter, if_pos rfl]
    have hentered := (post_of_cursor_eq (b := true) hm hcursor).1
    refine Partly.bind (hf.after hm hentered) fun b m₁ h₁ => ?_
    by_cases hleft : 0 < m₁.state.level level
    · have hleave : leaveLevel (w := w) level m₁ = .ok ((), left m₁ level) := if_pos hleft
      have hcursor₁ : (left m₁ level).state.mangledCur = m₁.state.mangledCur :=
        mangledCur_setLevel ..
      have hrel := (post_of_cursor_eq (b := true) h₁.1.2 hcursor₁).1
      rw [bind_ok hleave]
      exact ⟨(forward w).rel_trans h₁.1 hrel,
        fun hs hb => (forward w).progress_of_rel (h₁.2 hs hb) hrel⟩
    · have hleave : leaveLevel (w := w) level m₁ = .error .levelUnderflow := if_neg hleft
      rw [bind_error hleave]
      trivial
  · have henter : enterLevel (w := w) level m = .ok (false, m) := if_neg hlevel
    rw [guardLevel, bind_ok henter, if_neg Bool.false_ne_true]
    exact Frame.runs_pure_false m hm

/-! ### Every built function keeps the frame -/

theorem forward_and_right {f g : Parser w Bool} (hf : (forward w).Runs false f)
    (hg : (forward w).Runs s g) : (forward w).Runs s (f <&&> g : Parser w Bool) := by
  have h := Frame.runs_and hf hg
  rw [Bool.false_or] at h
  exact h

theorem Built.runs_forward {n : ℕ} {f : Parser w Bool} (h : Built n s f) :
    (forward w).Runs s f := by
  induction h with
  | fail => exact Frame.runs_pure_false
  | succeed => exact Frame.runs_pure_true
  | scan hf => exact forward_scan hf
  | control hg => exact forward_control hg
  | text _ => exact forward_text _
  | identifier hs => exact forward_identifier hs
  | accept hf => exact forward_accept hf
  | prevName _ => exact forward_prevName _
  | separated hf ih => exact forward_separated ih
  | and_left hf hg ihf ihg => exact Frame.runs_and ihf ihg
  | and_right hf hg ihf ihg => exact forward_and_right ihf ihg
  | or hf hg ihf ihg => exact Frame.runs_or ihf ihg
  | attempt hf ih => exact Frame.runs_attempt ih
  | attemptTwice hc hf hg ihc ihf ihg => exact Frame.runs_attemptTwice ihc ihf ihg
  | branch hc hf hg ihc ihf ihg => exact Frame.runs_branch ihc ihf ihg
  | optional hf ih => exact Frame.runs_optional ih
  | zeroOrMore hf ih => exact Frame.runs_zeroOrMore ih (.inl trivial)
  | parseUntil hf ih =>
    exact Frame.runs_repeatUntil
      (forward_scan ((scans_stop _).mono fun _ _ _ hs => absurd hs Bool.false_ne_true)) ih
      (.inl trivial) (.inl trivial)
  | saving hk ih => exact Frame.runs_saving ih
  | scanBind hf hk ih => exact forward_scanBind hf ih
  | guardLevel hlevel hf ih => exact forward_guardLevel ih
  | guardDepth hf ih => exact forward_guardLevel (forward_and_right forward_countStep ih)
  | exhausted => exact fun _ _ => trivial
  | weaken hf ih => exact ih.weaken

end Demangle

end NgLog
