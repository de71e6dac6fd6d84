import NgLog.Demangle.Declining

/-!
# The end of a list of types

A list of types, or of template arguments, ends where the next one cannot be parsed. The attempt to
parse it leaves the state as it was, but it takes steps: every parse function that guards its depth
takes one. Here is how many it takes at a byte with which no type starts.

## Main definitions

* `spent` — the machine with fewer steps left
* `Refused` — a parse function fails at a byte and takes at most so many steps
* `startsType` — the bytes with which a type starts

## Main results

* `refused_parseType`, `refused_parseTemplateArg` — where no type starts
-/

namespace NgLog

namespace Demangle

open Backtracking (Machine)
open Backtracking.Parser (Declines After Fails)

variable {w : CString} {m : Machine State Store}

/-! ### Failing at the cost of steps -/

/-- The machine with `j` steps less. -/
def spent (m : Machine State Store) (j : ℕ) : Machine State Store :=
  ⟨m.state, { m.store with stepsRemaining := m.store.stepsRemaining - j }⟩

@[simp]
theorem spent_state (m : Machine State Store) (j : ℕ) : (spent m j).state = m.state := rfl

@[simp]
theorem spent_zero (m : Machine State Store) : spent m 0 = m := rfl

@[simp]
theorem spent_spent (m : Machine State Store) (i j : ℕ) :
    spent (spent m i) j = spent m (i + j) := by
  simp only [spent, Nat.sub_sub]

/-- At the byte `c`, `f` fails and takes at most `k` steps. -/
def Refused (c : Byte) (k : ℕ) (f : Parser w Bool) : Prop :=
  ∀ m, m.state.mangledCur ≤ w.length → w.byteAt m.state.mangledCur = c →
    ∃ j ≤ k, f m = .ok (false, spent m j)

/-- At the byte `c`, `f` fails and takes at most `k` steps, but it need not restore the state. -/
def Lost (c : Byte) (k : ℕ) (f : Parser w Bool) : Prop :=
  ∀ m, m.state.mangledCur ≤ w.length → w.byteAt m.state.mangledCur = c →
    ∃ j ≤ k, ∃ state, f m = .ok (false, ⟨state, (spent m j).store⟩)

/-- At the byte `c`, `f` does nothing but take at most `k` steps. -/
def Skipped (c : Byte) (k : ℕ) (f : Parser w Bool) : Prop :=
  ∀ m, m.state.mangledCur ≤ w.length → w.byteAt m.state.mangledCur = c →
    ∃ j ≤ k, f m = .ok (true, spent m j)

variable {c : Byte} {j k : ℕ} {f g : Parser w Bool}

theorem refused_of_declines (h : ∀ m : Machine State Store, m.state.mangledCur ≤ w.length →
    w.byteAt m.state.mangledCur = c → Declines f m) : Refused c k f :=
  fun m hm hc => ⟨0, Nat.zero_le k, h m hm hc⟩

theorem Refused.mono (h : Refused c j f) (hjk : j ≤ k) : Refused c k f := fun m hm hc =>
  let ⟨i, hi, hrun⟩ := h m hm hc
  ⟨i, Nat.le_trans hi hjk, hrun⟩

theorem Refused.lost (h : Refused c k f) : Lost c k f := fun m hm hc =>
  let ⟨j, hj, hrun⟩ := h m hm hc
  ⟨j, hj, m.state, hrun⟩

theorem Refused.or (hf : Refused c j f) (hg : Refused c k g) :
    Refused c (j + k) (f <||> g : Parser w Bool) := by
  intro m hm hc
  obtain ⟨i₁, h₁, hrun₁⟩ := hf m hm hc
  obtain ⟨i₂, h₂, hrun₂⟩ := hg (spent m i₁) hm hc
  refine ⟨i₁ + i₂, Nat.add_le_add h₁ h₂, ?_⟩
  rw [spent_spent] at hrun₂
  exact (Backtracking.Parser.or_apply f g m).trans (by rw [hrun₁]; exact hrun₂)

theorem Refused.and (hf : Refused c k f) : Refused c k (f <&&> g : Parser w Bool) := fun m hm hc =>
  let ⟨i, hi, hrun⟩ := hf m hm hc
  ⟨i, hi, Backtracking.Parser.and_eq_false_iff.mpr (.inl hrun)⟩

theorem Lost.and (hf : Lost c k f) : Lost c k (f <&&> g : Parser w Bool) := fun m hm hc =>
  let ⟨i, hi, state, hrun⟩ := hf m hm hc
  ⟨i, hi, state, Backtracking.Parser.and_eq_false_iff.mpr (.inl hrun)⟩

/-- The output may be switched off first. -/
theorem Lost.disableAppend_and (hf : Lost c k f) :
    Lost c k (disableAppend <&&> f : Parser w Bool) := fun m hm hc =>
  let ⟨i, hi, state, hrun⟩ := hf ⟨{ m.state with append := false }, m.store⟩ hm hc
  ⟨i, hi, state, Backtracking.Parser.and_eq_false_iff.mpr (.inr ⟨_, rfl, hrun⟩)⟩

theorem Lost.saving {p : State → Parser w Bool} (h : ∀ state, Lost c k (p state)) :
    Lost c k (saving p) := fun m => h m.state m

theorem Lost.attempt (hf : Lost c k f) : Refused c k (attempt f) := by
  intro m hm hc
  obtain ⟨i, hi, state, hrun⟩ := hf m hm hc
  obtain ⟨_, hattempt, rfl⟩ : Fails (Demangle.attempt f) (· = spent m i) m :=
    Fails.attempt ⟨_, hrun, rfl⟩
  exact ⟨i, hi, hattempt⟩

theorem Refused.attempt (hf : Refused c k f) : Refused c k (attempt f) := hf.lost.attempt

theorem Refused.saving {p : State → Parser w Bool} (h : ∀ state, Refused c k (p state)) :
    Refused c k (saving p) := fun m => h m.state m

theorem Refused.optional (hf : Refused c k f) : Skipped c k (optional f) := by
  intro m hm hc
  obtain ⟨i, hi, hrun⟩ := hf m hm hc
  obtain ⟨_, hoptional, rfl⟩ : After (Demangle.optional f) (· = spent m i) m :=
    Fails.optional ⟨_, hrun, rfl⟩
  exact ⟨i, hi, hoptional⟩

theorem Skipped.and (hf : Skipped c j f) (hg : Refused c k g) :
    Refused c (j + k) (f <&&> g : Parser w Bool) := by
  intro m hm hc
  obtain ⟨i₁, h₁, hrun₁⟩ := hf m hm hc
  obtain ⟨i₂, h₂, hrun₂⟩ := hg (spent m i₁) hm hc
  rw [spent_spent] at hrun₂
  exact ⟨i₁ + i₂, Nat.add_le_add h₁ h₂,
    Backtracking.Parser.and_eq_false_iff.mpr (.inr ⟨_, hrun₁, hrun₂⟩)⟩

/-- A level that is entered is left again. -/
theorem Refused.guardLevel (level : Level) (hf : Refused c k f) :
    Refused c k (guardLevel level f) := by
  intro m hm hc
  by_cases hlt : m.state.level level < maxLevel level
  · have hcur : (entered m level).state.mangledCur = m.state.mangledCur := mangledCur_setLevel ..
    obtain ⟨i, hi, hrun⟩ := hf (entered m level) (hcur.symm ▸ hm) (hcur.symm ▸ hc)
    refine ⟨i, hi, ?_⟩
    have henter : enterLevel (w := w) level m = .ok (true, entered m level) := if_pos hlt
    have hpos : 0 < (entered m level).state.level level := by
      rw [entered, level_setLevel, if_pos rfl]
      exact Nat.succ_pos _
    have hleave : leaveLevel (w := w) level (spent (entered m level) i) = .ok ((), spent m i) := by
      have hrestored := setLevel_entered m.state level
      rw [leaveLevel, spent_state, if_pos hpos]
      exact congrArg (fun state => Except.ok ((), (⟨state, _⟩ : Machine State Store))) hrestored
    rw [Demangle.guardLevel, bind_ok henter, if_pos rfl, bind_ok hrun, bind_ok hleave]
    rfl
  · have henter : enterLevel (w := w) level m = .ok (false, m) := if_neg hlt
    refine ⟨0, Nat.zero_le k, ?_⟩
    rw [Demangle.guardLevel, bind_ok henter]
    rfl

/-- A step is counted, if one is left. -/
theorem Refused.guardDepth (hf : Refused c k f) : Refused c (k + 1) (guardDepth f) := by
  refine Refused.guardLevel .depth fun m hm hc => ?_
  by_cases hsteps : 0 < m.store.stepsRemaining
  · obtain ⟨i, hi, hrun⟩ := hf (spent m 1) hm hc
    rw [spent_spent] at hrun
    have hcount : countStep (w := w) m = .ok (true, spent m 1) := if_pos hsteps
    exact ⟨1 + i, by omega, Backtracking.Parser.and_eq_false_iff.mpr (.inr ⟨_, hcount, hrun⟩)⟩
  · have hcount : countStep (w := w) m = .ok (false, m) := if_neg hsteps
    exact ⟨0, Nat.zero_le _, Backtracking.Parser.and_eq_false_iff.mpr (.inl hcount)⟩

theorem refused_of_ne (t : Char) (h : t.toUInt8 ≠ 0) (hc : c ≠ t.toUInt8) :
    Refused c 0 (parseOneCharToken t h : Parser w Bool) :=
  refused_of_declines fun _ hm hbyte => declines_parseOneCharToken t h hm (hbyte ▸ hc)

theorem refused_parseRequiresClause [Forward w] (hc : c ≠ 'Q'.toUInt8) :
    Refused c 0 (parseRequiresClause : Parser w Bool) :=
  (Lost.saving fun _ => (refused_of_ne 'Q' _ hc).and.lost.disableAppend_and).attempt

theorem refused_parseTemplateArgs [Forward w] (hc : c ≠ 'I'.toUInt8) :
    Refused c 0 (parseTemplateArgs : Parser w Bool) :=
  (Lost.saving fun _ => (refused_of_ne 'I' _ hc).and.lost.disableAppend_and).attempt

theorem refused_parseCVQualifiers (hr : c ≠ 'r'.toUInt8) (hV : c ≠ 'V'.toUInt8)
    (hK : c ≠ 'K'.toUInt8) : Refused c 0 (parseCVQualifiers : Parser w Bool) :=
  refused_of_declines fun _ hm hbyte =>
    (bind_ok (declines_parseOneCharToken 'r' _ hm (hbyte ▸ hr))).trans <|
      (bind_ok (declines_parseOneCharToken 'V' _ hm (hbyte ▸ hV))).trans <|
        (bind_ok (declines_parseOneCharToken 'K' _ hm (hbyte ▸ hK))).trans rfl

/-! ### Where no type starts -/

/-- The bytes with which types start, the names of classes among them. -/
def startsType (c : Byte) : Bool := startsComponent c || (bytes "OPRGVKFNZAMQ").contains c

theorem startsComponent_of_startsType (hc : startsType c = false) : startsComponent c = false :=
  (Bool.or_eq_false_iff.mp hc).1

theorem ne_of_startsType {d : Byte} (hc : startsType c = false) (hd : startsType d = true) :
    c ≠ d := fun heq => absurd ((heq ▸ hc).symm.trans hd) Bool.false_ne_true

section Types

variable (hc : startsType c = false)

include hc

theorem refused_oneCharToken (t : Char) (h : t.toUInt8 ≠ 0)
    (ht : startsType t.toUInt8 = true) : Refused c 0 (parseOneCharToken t h : Parser w Bool) :=
  refused_of_ne t h (ne_of_startsType hc ht)

theorem refused_twoCharToken (s : String) (h : (bytes s).length = 2)
    (hs : startsType ((bytes s).headD 0) = true) :
    Refused c 0 (parseTwoCharToken s h : Parser w Bool) :=
  refused_of_declines fun _ hm hbyte =>
    declines_parseTwoCharToken s h hm (hbyte ▸ ne_of_startsType hc hs)

theorem refused_qualifiers : Refused c 0 (parseCVQualifiers : Parser w Bool) :=
  refused_parseCVQualifiers (ne_of_startsType hc (by decide)) (ne_of_startsType hc (by decide))
    (ne_of_startsType hc (by decide))

theorem refused_parseSubstitution : Refused c 0 (parseSubstitution : Parser w Bool) :=
  refused_of_declines fun _ hm hbyte =>
    declines_parseSubstitution hm (hbyte ▸ ne_of_startsType hc (by decide))

theorem refused_parseTemplateParam : Refused c 0 (parseTemplateParam : Parser w Bool) :=
  refused_of_declines fun _ hm hbyte =>
    declines_parseTemplateParam hm (hbyte ▸ ne_of_startsType hc (by decide))

/-- No entry of `kBuiltinTypeList` is found. -/
theorem refused_findBuiltinType : Refused c 0 (acceptAbbrev findBuiltinType
    (fun p => p.abbreviation.length) (fun p => [p.realName]) : Parser w Bool) := by
  refine refused_of_declines fun m _ hbyte => bind_ok (a := (none : Option AbbrevPair)) ?_
  have htable : kBuiltinTypeList.all (fun p =>
      startsType ((bytes p.abbreviation).headD 0) && !(bytes p.abbreviation).isEmpty) = true := by
    decide +kernel
  have hnone : kBuiltinTypeList.find? (fun p =>
      (bytes p.abbreviation).isPrefixOf (rest w m.state)) = none := by
    refine List.find?_eq_none.mpr fun p hp hprefix => ?_
    obtain ⟨hstarts, hne⟩ := Bool.and_eq_true_iff.mp (List.all_eq_true.mp htable p hp)
    obtain ⟨tail, hrest⟩ := List.isPrefixOf_iff_prefix.mp hprefix
    have hhead : w.byteAt m.state.mangledCur = (bytes p.abbreviation).headD 0 := by
      rw [← headD_rest, ← hrest]
      cases hbytes : bytes p.abbreviation with
      | nil =>
        rw [hbytes] at hne
        cases hne
      | cons b text => rfl
    exact ne_of_startsType hc hstarts (hbyte.symm.trans hhead)
  rw [findBuiltinType, saving_run, hnone]
  rfl

section Grammar

variable [Forward w]

theorem refused_parseBuiltinType : Refused c 0 (parseBuiltinType : Parser w Bool) :=
  (refused_twoCharToken hc "DF" _ (by decide)).and.attempt.or <|
    ((refused_twoCharToken hc "DS" _ (by decide)).optional.and
      ((refused_twoCharToken hc "DA" _ (by decide)).or
        (refused_twoCharToken hc "DR" _ (by decide))).and).attempt.or <|
    ((refused_twoCharToken hc "DB" _ (by decide)).or
      (refused_twoCharToken hc "DU" _ (by decide))).and.attempt.or <|
    (refused_findBuiltinType hc).or (refused_oneCharToken hc 'u' _ (by decide)).and.attempt

theorem refused_parseExceptionSpec : Refused c 0 (parseExceptionSpec : Parser w Bool) :=
  .saving fun _ =>
    (refused_twoCharToken hc "Do" _ (by decide)).and.lost.disableAppend_and.attempt.or <|
    (refused_twoCharToken hc "DO" _ (by decide)).and.lost.disableAppend_and.attempt.or
      (refused_twoCharToken hc "Dw" _ (by decide)).and.lost.disableAppend_and.attempt

theorem refused_parseFunctionType : Refused c 0 (parseFunctionType : Parser w Bool) :=
  ((refused_qualifiers hc).optional.and <|
    (refused_parseExceptionSpec hc).optional.and <|
    (refused_twoCharToken hc "Dx" _ (by decide)).optional.and
      (refused_oneCharToken hc 'F' _ (by decide)).and).attempt

theorem refused_parseArrayType : Refused c 0 (parseArrayType : Parser w Bool) :=
  (refused_oneCharToken hc 'A' _ (by decide)).and.attempt.or
    (refused_oneCharToken hc 'A' _ (by decide)).and.attempt

theorem refused_parseExprPrimary : Refused c 0 (parseExprPrimary : Parser w Bool) :=
  (refused_oneCharToken hc 'L' _ (by decide)).and.attempt.or <|
    (refused_oneCharToken hc 'L' _ (by decide)).and.attempt.or <|
    (refused_oneCharToken hc 'L' _ (by decide)).and.attempt.or <|
    (refused_oneCharToken hc 'L' _ (by decide)).and.attempt.or <|
    (refused_twoCharToken hc "LZ" _ (by decide)).and.attempt.or
      (refused_oneCharToken hc 'L' _ (by decide)).and.attempt

theorem refused_parseNestedName : Refused c 1 (parseNestedName : Parser w Bool) :=
  (Refused.attempt (.saving fun _ => (refused_oneCharToken hc 'N' _ (by decide)).and)).guardDepth

theorem refused_parseLocalName : Refused c 1 (parseLocalName : Parser w Bool) :=
  (Refused.guardLevel .localName <|
    (refused_oneCharToken hc 'Z' _ (by decide)).and.attempt.or <|
    (refused_oneCharToken hc 'Z' _ (by decide)).and.attempt.or
      (refused_oneCharToken hc 'Z' _ (by decide)).and.attempt).guardDepth

theorem refused_parseUnscopedName : Refused c 0 (parseUnscopedName : Parser w Bool) :=
  refused_of_declines fun _ hm hbyte =>
    declines_parseUnscopedName hm (hbyte ▸ startsComponent_of_startsType hc)

theorem refused_parseName (hnested : Refused c 1 (Forward.parseNestedName : Parser w Bool))
    (hlocal : Refused c 1 (Forward.parseLocalName : Parser w Bool)) :
    Refused c 3 (parseName : Parser w Bool) :=
  ((hnested.or hlocal).or <|
    ((refused_parseUnscopedName hc).or (refused_parseSubstitution hc)).and.attempt.or
      (refused_parseUnscopedName hc)).guardDepth

theorem refused_parseType (hname : Refused c 3 (Forward.parseName : Parser w Bool)) :
    Refused c 4 (parseType : Parser w Bool) := by
  have hclass : Refused c 0 (parseCharClass "OPRCG" : Parser w Bool) :=
    refused_of_declines fun _ hm hbyte => declines_parseCharClass "OPRCG" hm fun hmem => by
      have hall : (bytes "OPRCG").all startsType = true := by decide
      exact absurd rfl (ne_of_startsType hc (List.all_eq_true.mp hall c (hbyte ▸ hmem)))
  exact (Refused.guardLevel .type <|
    (refused_qualifiers hc).and.attempt.or <|
    hclass.and.attempt.or <|
    (refused_twoCharToken hc "Dp" _ (by decide)).and.attempt.or <|
    ((refused_twoCharToken hc "Ts" _ (by decide)).or <|
      (refused_twoCharToken hc "Tu" _ (by decide)).or
        (refused_twoCharToken hc "Te" _ (by decide))).and.attempt.or <|
    (refused_oneCharToken hc 'D' _ (by decide)).and.attempt.or <|
    (refused_oneCharToken hc 'U' _ (by decide)).and.attempt.or <|
    (((refused_parseBuiltinType hc).or <| (refused_parseFunctionType hc).or <| hname.or <|
      (refused_parseArrayType hc).or <| (refused_oneCharToken hc 'M' _ (by decide)).and.attempt.or
        (refused_parseSubstitution hc)).or
      ((refused_parseTemplateParam hc).or (refused_parseSubstitution hc)).and).attempt.or
    (refused_parseTemplateParam hc).attempt).guardDepth

theorem refused_parseTemplateArg (harg : (bytes "IJX").contains c = false)
    (htype : Refused c 4 (Forward.parseType : Parser w Bool)) :
    Refused c 5 (parseTemplateArg : Parser w Bool) := by
  have htoken (t : Char) (h : t.toUInt8 ≠ 0) (ht : (bytes "IJX").contains t.toUInt8 = true) :
      Refused c 0 (parseOneCharToken t h : Parser w Bool) :=
    refused_of_declines fun _ hm hbyte => declines_parseOneCharToken t h hm fun heq =>
      absurd ((hbyte.symm.trans heq ▸ harg).symm.trans ht) Bool.false_ne_true
  exact (Refused.guardLevel .templateArg <|
    ((htoken 'I' _ (by decide)).or (htoken 'J' _ (by decide))).and.attempt.or <|
    (htype.or (refused_parseExprPrimary hc)).attempt.or
      (htoken 'X' _ (by decide)).and.attempt).guardDepth

end Grammar

/-! ### The recursive parse functions -/

theorem refused_forwardAt_parseNestedName (n : ℕ) :
    Refused c 1 ((forwardAt w (n + 1)).parseNestedName : Parser w Bool) :=
  letI := forwardAt w n
  refused_parseNestedName hc

theorem refused_forwardAt_parseLocalName (n : ℕ) :
    Refused c 1 ((forwardAt w (n + 1)).parseLocalName : Parser w Bool) :=
  letI := forwardAt w n
  refused_parseLocalName hc

theorem refused_forwardAt_parseName (n : ℕ) :
    Refused c 3 ((forwardAt w (n + 2)).parseName : Parser w Bool) :=
  letI := forwardAt w (n + 1)
  refused_parseName hc (refused_forwardAt_parseNestedName hc n)
    (refused_forwardAt_parseLocalName hc n)

theorem refused_forwardAt_parseType (n : ℕ) :
    Refused c 4 ((forwardAt w (n + 3)).parseType : Parser w Bool) :=
  letI := forwardAt w (n + 2)
  refused_parseType hc (refused_forwardAt_parseName hc n)

theorem refused_forwardAt_parseTemplateArg (n : ℕ) (harg : (bytes "IJX").contains c = false) :
    Refused c 5 ((forwardAt w (n + 4)).parseTemplateArg : Parser w Bool) :=
  letI := forwardAt w (n + 3)
  refused_parseTemplateArg hc harg (refused_forwardAt_parseType hc n)

end Types

end Demangle

end NgLog
