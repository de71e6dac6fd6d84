import NgLog.Demangle.Components

/-!
# The iterations of `ParsePrefix`

An iteration of the loop appends a separator, tries the components, takes the separator back when
there is none, and then tries template arguments. What it does is known from the byte at the cursor:
here it is followed for a name, for a group of template arguments and at the end of the nested name.

## Main definitions

* `Inside` — the state between two components
* `separatorAt` — what the loop appends before a component

## Main results

* `Config.componentItem` — an iteration that finds a component
* `Config.argsItem` — an iteration that finds template arguments
* `Config.lastItem` — the last iteration
-/

namespace NgLog

namespace Demangle

open Backtracking (Machine)
open Backtracking.Parser (After Fails Declines)

variable {w : CString} {room : ℕ} {s : State} {input output : List Byte} {steps level : ℕ}
  {m : Machine State Store}

/-! ### The nesting counter -/

theorem toInt_ofNat {n : ℕ} (h : n < 2 ^ 15) : (Int16.ofNat n).toInt = n :=
  Int16.toInt_ofNat_of_lt h

theorem one_le_ofNat {n : ℕ} (hpos : 1 ≤ n) (h : n < 2 ^ 15) : 1 ≤ Int16.ofNat n := by
  rw [Int16.le_iff_toInt_le, toInt_ofNat h]
  exact Int.ofNat_le.mpr hpos

theorem ofNat_gt_neg_one {n : ℕ} (h : n < 2 ^ 15) : Int16.ofNat n > -1 := by
  rw [gt_iff_lt, Int16.lt_iff_toInt_lt, toInt_ofNat h]
  exact Int.lt_of_lt_of_le (by decide) (Int.natCast_nonneg n)

theorem Config.noRefQualifier (h : Config w room s input output steps m)
    (hR : input.headD 0 ≠ 'R'.toUInt8) (hO : input.headD 0 ≠ 'O'.toUInt8) :
    parseRefQualifier (w := w) m = .ok (0, m) := by
  rw [parseRefQualifier, bind_ok (peek_run 0 h.cursor), Nat.add_zero, h.byteAt, beq_false_of_ne hR,
    beq_false_of_ne hO, Bool.or_false, if_neg Bool.false_ne_true]
  rfl

/-! ### Between two components -/

/-- The fields that the components of a nested name change. -/
def State.named (s : State) (level : Int16) (start : Option ℕ) (length : ℤ) : State :=
  { s with nestLevel := level, prevName := start, prevNameLength := length }

/-- The state between two components of a nested name, behind `level` of them. -/
structure Inside (s : State) (level : ℕ) : Prop where
  append : s.append = true
  overflowed : s.overflowed = false
  skipSeparator : s.skipSeparator = false
  nestLevel : s.nestLevel = Int16.ofNat level
  depth : s.parseDepth + 1 < maxLevel .depth
  templateArg : s.argLevel < maxLevel .templateArg
  type : s.typeLevel < maxLevel .type

theorem Inside.named {s : State} (h : Inside s level) (level' : ℕ) (start : Option ℕ) (length : ℤ) :
    Inside (s.named (Int16.ofNat level') start length) level' :=
  ⟨h.append, h.overflowed, h.skipSeparator, rfl, h.depth, h.templateArg, h.type⟩

theorem Inside.one_le {s : State} (h : Inside s level) (hpos : 1 ≤ level) (hlt : level < 2 ^ 15) :
    1 ≤ s.nestLevel := h.nestLevel ▸ one_le_ofNat hpos hlt

theorem Identifier.remember (name : Identifier) (s : State) (start : ℕ) :
    s.remember start name.text = s.named s.nestLevel (some start) name.text.length :=
  if_pos name.first

/-- What the loop appends before a component. -/
def separatorAt (level : ℕ) : List Byte := if level = 0 then [] else bytes "::"

theorem separated_true {component : Parser w Bool} {m' : Machine State Store}
    (h : (maybeAppendSeparator <&&> component : Parser w Bool) m = .ok (true, m')) :
    separated component m = .ok (true, m') := by
  rw [separated, saving_run, bind_ok h]
  rfl

theorem separated_false {component : Parser w Bool} {m₁ m' : Machine State Store}
    (h : (maybeAppendSeparator <&&> component : Parser w Bool) m = .ok (false, m₁))
    (hcancel : maybeCancelLastSeparator (w := w) m.state.outCur m₁ = .ok ((), m')) :
    separated component m = .ok (false, m') := by
  rw [separated, saving_run, bind_ok h, if_neg Bool.false_ne_true, bind_ok hcancel]
  rfl

theorem Config.separated (h : Config w room s input output steps m) (hin : Inside s level)
    (hlt : level < 2 ^ 15) (hroom : output.length + (separatorAt level).length < room) :
    After (maybeAppendSeparator : Parser w Bool)
      (Config w room s input (output ++ separatorAt level) steps) m := by
  rcases Nat.eq_zero_or_pos level with rfl | hpos
  · rw [separatorAt, if_pos rfl, List.append_nil]
    exact h.no_separator hin.skipSeparator (by rw [hin.nestLevel]; decide)
  · rw [separatorAt, if_neg (Nat.pos_iff_ne_zero.mp hpos)] at hroom ⊢
    exact h.separator hin.append hin.overflowed hin.skipSeparator (hin.one_le hpos hlt) hroom

section Grammar

variable [Forward w]

/-- An iteration that finds a component. -/
theorem Config.componentItem {start : ℕ} {input' output' : List Byte} (name : Identifier)
    (again : Bool) (h : Config w room s input output steps m) (hin : Inside s level)
    (hlt : level < 2 ^ 15) (hroom : output.length + (separatorAt level).length < room)
    (hcomponent : ∀ m₁, Config w room s input (output ++ separatorAt level) steps m₁ →
      After (parseTemplateParam <||> parseSubstitution <||> parseUnscopedName : Parser w Bool)
        (Config w room (s.remember start name.text) input' output' steps) m₁) :
    After (parsePrefixItem again : Parser w Bool)
      (Config w room (s.named (Int16.ofNat (level + 1)) (some start) name.text.length)
        input' output'
        steps) m := by
  obtain ⟨m₁, hseparator, h₁⟩ := h.separated hin hlt hroom
  obtain ⟨m₂, hrun, h₂⟩ := hcomponent m₁ h₁
  rw [name.remember] at h₂
  have hseparated := separated_true (Backtracking.Parser.and_eq_true_iff.mpr ⟨m₁, hseparator, hrun⟩)
  have hlevel : m₂.state.nestLevel = Int16.ofNat level := h₂.nestLevel.trans hin.nestLevel
  have hincrease : maybeIncreaseNestLevel (w := w) m₂ =
      .ok (true, ⟨{ m₂.state with nestLevel := Int16.ofNat (level + 1) }, m₂.store⟩) := by
    rw [maybeIncreaseNestLevel, modify_run, if_pos (hlevel.symm ▸ ofNat_gt_neg_one hlt), hlevel,
      Int16.ofNat_add]
    rfl
  exact After.or (.seq hseparated ⟨_, hincrease,
    h₂.set (g := fun state => { state with nestLevel := Int16.ofNat (level + 1) })
      fun _ _ _ => rfl⟩)

/-- No component follows: the separator is taken back. -/
theorem Config.noComponent (h : Config w room s input output steps m) (hin : Inside s level)
    (hpos : 1 ≤ level) (hlt : level < 2 ^ 15) (hroom : output.length + 2 < room)
    (hfirst : startsComponent (input.headD 0) = false) :
    Fails (Demangle.separated
      (parseTemplateParam <||> parseSubstitution <||> parseUnscopedName) <&&>
      maybeIncreaseNestLevel : Parser w Bool) (Config w room s input output steps) m := by
  obtain ⟨m₁, hseparator, h₁⟩ := h.separator hin.append hin.overflowed hin.skipSeparator
    (hin.one_le hpos hlt) hroom
  have hdeclines := declines_component h₁.cursor (h₁.byteAt ▸ hfirst)
  obtain ⟨m₂, hcancel, h₂⟩ := h₁.cancelSeparator hin.append (hin.one_le hpos hlt) m.state.outCur
  have hand := Backtracking.Parser.and_eq_false_iff.mpr (.inr ⟨m₁, hseparator, hdeclines⟩)
  exact Fails.and ⟨m₂, separated_false hand hcancel, h₂⟩

/-- The last iteration, at the end of the nested name. -/
theorem Config.lastItem (h : Config w room s ('E'.toUInt8 :: input) output steps m)
    (hin : Inside s level) (hpos : 1 ≤ level) (hlt : level < 2 ^ 15)
    (hroom : output.length + 2 < room) :
    Fails (parsePrefixItem true : Parser w Bool)
      (Config w room s ('E'.toUInt8 :: input) output steps) m := by
  have hfirst : startsComponent 'E'.toUInt8 = false := by decide
  have hneM : 'E'.toUInt8 ≠ 'M'.toUInt8 := by decide
  have hneD : 'E'.toUInt8 ≠ 'D'.toUInt8 := by decide
  obtain ⟨m₁, hcomponent, h₁⟩ := h.noComponent hin hpos hlt hroom hfirst
  have hargs : Refused 'E'.toUInt8 0 (parseTemplateArgs : Parser w Bool) :=
    refused_parseTemplateArgs (by decide)
  rw [← Nat.zero_add steps] at h₁
  obtain ⟨m₂, hrefused, h₂⟩ := h₁.refused hargs rfl
  have hM : Declines (attempt (parseOneCharToken 'M') : Parser w Bool) m₂ :=
    .attempt (h₂.no_oneCharToken 'M' _ hneM)
  have hD : Declines (attempt (parseOneCharToken 'D' <&&>
      (parseOneCharToken 't' <||> parseOneCharToken 'T') <&&> Forward.parseExpression <&&>
      parseOneCharToken 'E') : Parser w Bool) m₂ :=
    .attempt (.and (h₂.no_oneCharToken 'D' _ hneD))
  exact Fails.or_fails ⟨m₁, hcomponent, Fails.or_fails ⟨m₂,
    Backtracking.Parser.and_eq_false_iff.mpr (.inr ⟨m₁, rfl, hrefused⟩),
    Fails.or_fails (hM.fails (hD.fails h₂))⟩⟩

end Grammar

/-- An iteration that finds template arguments. -/
theorem Config.argsItem (n : ℕ) {args : List Byte}
    (h : Config w room s ('I'.toUInt8 :: args ++ 'E'.toUInt8 :: input) output
      (2 * args.length + (5 + steps)) m)
    (hin : Inside s level) (hpos : 1 ≤ level) (hlt : level < 2 ^ 15) (hargs : args ≠ [])
    (hletters : ∀ c ∈ args, c ∈ builtinLetters) (hangle : output.getLast? ≠ some '<'.toUInt8)
    (hroom : output.length + 2 < room) :
    letI := forwardAt w (n + 4)
    After (parsePrefixItem true : Parser w Bool)
      (Config w room s input (output ++ bytes "<>") steps) m := by
  let _ : Forward w := forwardAt w (n + 4)
  have hfirst : startsComponent 'I'.toUInt8 = false := by decide
  obtain ⟨m₁, hcomponent, h₁⟩ := h.noComponent hin hpos hlt hroom hfirst
  have htemplateArgs := h₁.templateArgs n hargs hletters hin.append hin.overflowed hin.depth
    hin.templateArg hin.type hangle hroom
  exact Fails.or ⟨m₁, hcomponent, After.or (.seq rfl htemplateArgs)⟩

end Demangle

end NgLog
