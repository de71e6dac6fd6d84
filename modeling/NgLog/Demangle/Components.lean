import NgLog.Demangle.Configuration

/-!
# The components of a nested name

What the parse functions for types, template arguments and names do where one of them stands. The
template arguments are builtin types of one letter, and the names are identifiers, constructors and
destructors.

## Main definitions

* `builtinLetters` — the builtin types of one letter
* `Identifier` — a name that `ParseSourceName` appends as it is
* `Special` — a constructor or a destructor

## Main results

* `Config.templateArgs` — a group of template arguments
* `Config.sourceName`, `Config.special` — names
-/

namespace NgLog

namespace Demangle

open Backtracking (Machine)
open Backtracking.Parser (After Fails Declines)

variable {w : CString} {room : ℕ} {s : State} {input output : List Byte} {steps : ℕ}
  {m : Machine State Store}

/-! ### Builtin types -/

/-- The builtin types of one letter. -/
def builtinLetters : List Byte := bytes "vwbcahstijlmxynofdegz"

/-- The bytes that start other types and template arguments. -/
def otherLetters : List Byte := bytes "rVKOPRCGDTUIJ"

theorem ne_of_mem_builtinLetters {c d : Byte} (hc : c ∈ builtinLetters) (hd : d ∈ otherLetters) :
    c ≠ d := by
  have htable : builtinLetters.all (fun c => !otherLetters.contains c) = true := by decide +kernel
  rintro rfl
  have hnot := List.all_eq_true.mp htable c hc
  rw [List.contains_iff_mem.mpr hd] at hnot
  cases hnot

/-- The entry of `kBuiltinTypeList` for a letter. -/
theorem Config.findBuiltinType {c : Byte} (h : Config w room s (c :: input) output steps m)
    (hc : c ∈ builtinLetters) :
    ∃ p, Demangle.findBuiltinType (w := w) m = .ok (some p, m) ∧ p.abbreviation.length = 1 := by
  have hletters : builtinLetters.all (fun c => kBuiltinTypeList.any fun p =>
      bytes p.abbreviation == [c]) = true := by decide +kernel
  have hothers : kBuiltinTypeList.all (fun p => p.abbreviation.length == 1 ||
      otherLetters.contains ((bytes p.abbreviation).headD 0)) = true := by decide +kernel
  obtain ⟨p, hp, habbrev⟩ := List.any_eq_true.mp (List.all_eq_true.mp hletters c hc)
  have hsome : (kBuiltinTypeList.find? fun p =>
      (bytes p.abbreviation).isPrefixOf (c :: input)).isSome = true := by
    refine List.find?_isSome.mpr ⟨p, hp, ?_⟩
    rw [eq_of_beq habbrev]
    exact List.isPrefixOf_iff_prefix.mpr ⟨input, rfl⟩
  obtain ⟨found, hfound⟩ := Option.isSome_iff_exists.mp hsome
  refine ⟨found, ?_, ?_⟩
  · rw [Demangle.findBuiltinType, saving_run, h.rest, hfound]
    rfl
  · have hprefix := List.find?_some (p := fun p : AbbrevPair =>
      (bytes p.abbreviation).isPrefixOf (c :: input)) hfound
    have htable := List.all_eq_true.mp hothers found (List.mem_of_find?_eq_some hfound)
    rcases Bool.or_eq_true_iff.mp htable with hone | hother
    · exact beq_iff_eq.mp hone
    · rcases hbytes : bytes found.abbreviation with _ | ⟨d, text⟩
      · rw [hbytes] at hother
        exact absurd hother (by decide)
      · rw [hbytes, List.headD_cons] at hother
        rw [hbytes, List.isPrefixOf_cons_cons, Bool.and_eq_true_iff, beq_iff_eq] at hprefix
        exact absurd hprefix.1.symm (ne_of_mem_builtinLetters hc (List.contains_iff_mem.mp hother))

section Grammar

variable [Forward w]

/-- A builtin type is skipped while the output is switched off. -/
theorem Config.builtinType {c : Byte} (h : Config w room s (c :: input) output steps m)
    (hc : c ∈ builtinLetters) (happend : s.append = false) :
    After (parseBuiltinType : Parser w Bool) (Config w room s input output steps) m := by
  have hD : (c :: input).headD 0 ≠ 'D'.toUInt8 := ne_of_mem_builtinLetters hc (by decide)
  have htoken (t : String) (ht : (bytes t).length = 2) (hhead : (bytes t).headD 0 = 'D'.toUInt8) :
      Declines (parseTwoCharToken t ht : Parser w Bool) m :=
    h.no_twoCharToken t ht (hhead ▸ hD)
  obtain ⟨p, hfound, hlength⟩ := h.findBuiltinType hc
  have haccepted : After (acceptAbbrev Demangle.findBuiltinType (fun p => p.abbreviation.length)
      (fun p => [p.realName]) : Parser w Bool) (Config w room s input output steps) m := by
    obtain ⟨m₁, hrun, h₁⟩ := Config.mutedAll happend [p.realName] m h
    have hadvance := h₁.advance [c]
    rw [List.length_singleton, ← hlength] at hadvance
    exact After.bind hfound (After.and ⟨m₁, hrun, hadvance⟩)
  refine Declines.or_after (.attempt (.and (htoken "DF" _ rfl))) ?_
  refine Declines.or_after (.attempt (.test_and (htoken "DS" _ rfl).optional_apply <| .and <|
    .or (htoken "DA" _ rfl) (htoken "DR" _ rfl))) ?_
  refine Declines.or_after (.attempt (.and (.or (htoken "DB" _ rfl) (htoken "DU" _ rfl)))) ?_
  exact haccepted.or

/-- A type that is a builtin type, one step. -/
theorem Config.builtin {c : Byte} (h : Config w room s (c :: input) output (1 + steps) m)
    (hc : c ∈ builtinLetters) (happend : s.append = false)
    (hdepth : s.parseDepth < maxLevel .depth) (htype : s.typeLevel < maxLevel .type) :
    After (parseType : Parser w Bool) (Config w room s input output steps) m := by
  let inner := Demangle.entered (Demangle.deeper m) .type
  have hinner : Config w room _ (c :: input) output steps inner := h.deeper.entered .type
  have hne (d : Byte) (hd : d ∈ otherLetters) : (c :: input).headD 0 ≠ d :=
    ne_of_mem_builtinLetters hc hd
  have hclass : Declines (parseCharClass "OPRCG" : Parser w Bool) inner := by
    refine declines_parseCharClass "OPRCG" hinner.cursor fun hmem => ?_
    have hsub : (bytes "OPRCG").all otherLetters.contains = true := by decide
    rw [hinner.byteAt] at hmem
    exact hne _ (List.contains_iff_mem.mp (List.all_eq_true.mp hsub _ hmem)) rfl
  have hqualifiers : Declines (parseCVQualifiers : Parser w Bool) inner := by
    obtain ⟨j, hj, hrun⟩ := refused_parseCVQualifiers (hne _ (by decide)) (hne _ (by decide))
      (hne _ (by decide)) _ hinner.cursor hinner.byteAt
    obtain rfl := Nat.le_zero.mp hj
    exact hrun
  refine h.guardDepth hdepth rfl (h.deeper.guardLevel .type htype rfl ?_)
  refine Declines.or_after (.attempt (.and hqualifiers)) ?_
  refine Declines.or_after (.attempt (.and hclass)) ?_
  refine Declines.or_after (.attempt (.and (hinner.no_twoCharToken "Dp" _ (hne _ (by decide))))) ?_
  refine Declines.or_after (.attempt (.and <|
    .or (hinner.no_twoCharToken "Ts" _ (hne _ (by decide))) <|
      .or (hinner.no_twoCharToken "Tu" _ (hne _ (by decide)))
        (hinner.no_twoCharToken "Te" _ (hne _ (by decide))))) ?_
  refine Declines.or_after (.attempt (.and (hinner.no_oneCharToken 'D' _ (hne _ (by decide))))) ?_
  refine Declines.or_after (.attempt (.and (hinner.no_oneCharToken 'U' _ (hne _ (by decide))))) ?_
  exact (hinner.builtinType hc happend).or.or.attempt.or

/-- A template argument that is a builtin type, two steps. -/
theorem Config.templateArg {c : Byte} (h : Config w room s (c :: input) output (2 + steps) m)
    (hc : c ∈ builtinLetters) (hdepth : s.parseDepth < maxLevel .depth)
    (harg : s.argLevel < maxLevel .templateArg)
    (htype : ∀ m', Config w room
        { s with parseDepth := s.parseDepth + 1, argLevel := s.argLevel + 1 } (c :: input) output
        (1 + steps) m' →
      After (Forward.parseType : Parser w Bool) (Config w room
        { s with parseDepth := s.parseDepth + 1, argLevel := s.argLevel + 1 } input output steps)
        m') :
    After (parseTemplateArg : Parser w Bool) (Config w room s input output steps) m := by
  rw [Nat.add_assoc 1 1 steps] at h
  have hinner := h.deeper.entered .templateArg
  have hne (d : Byte) (hd : d ∈ otherLetters) : (c :: input).headD 0 ≠ d :=
    ne_of_mem_builtinLetters hc hd
  refine h.guardDepth hdepth rfl (h.deeper.guardLevel .templateArg harg rfl ?_)
  refine Declines.or_after (.attempt (.and <|
    .or (hinner.no_oneCharToken 'I' _ (hne _ (by decide)))
      (hinner.no_oneCharToken 'J' _ (hne _ (by decide))))) ?_
  exact (htype _ hinner).or.attempt.or

end Grammar

/-! ### Template arguments -/

theorem refused_templateArg (n : ℕ) :
    Refused 'E'.toUInt8 5 ((forwardAt w (n + 4)).parseTemplateArg : Parser w Bool) :=
  refused_forwardAt_parseTemplateArg (by decide) n (by decide)

theorem Config.forwardTemplateArg (n : ℕ) {c : Byte}
    (h : Config w room s (c :: input) output (2 + steps) m) (hc : c ∈ builtinLetters)
    (happend : s.append = false) (hdepth : s.parseDepth + 1 < maxLevel .depth)
    (harg : s.argLevel < maxLevel .templateArg) (htype : s.typeLevel < maxLevel .type) :
    After ((forwardAt w (n + 2)).parseTemplateArg : Parser w Bool)
      (Config w room s input output steps) m :=
  letI := forwardAt w (n + 1)
  h.templateArg hc (Nat.lt_of_succ_lt hdepth) harg fun _ h' =>
    letI := forwardAt w n
    h'.builtin hc happend hdepth htype

/-- A group of template arguments: they are read and `<>` is appended. -/
theorem Config.templateArgs (n : ℕ) {args : List Byte}
    (h : Config w room s ('I'.toUInt8 :: args ++ 'E'.toUInt8 :: input) output
      (2 * args.length + (5 + steps)) m)
    (hargs : args ≠ []) (hletters : ∀ c ∈ args, c ∈ builtinLetters) (happend : s.append = true)
    (hover : s.overflowed = false) (hdepth : s.parseDepth + 1 < maxLevel .depth)
    (harg : s.argLevel < maxLevel .templateArg) (htype : s.typeLevel < maxLevel .type)
    (hangle : output.getLast? ≠ some '<'.toUInt8) (hroom : output.length + 2 < room) :
    letI := forwardAt w (n + 4)
    After (parseTemplateArgs : Parser w Bool)
      (Config w room s input (output ++ bytes "<>") steps) m := by
  let _ : Forward w := forwardAt w (n + 4)
  have hletter (c : Byte) (hc : c ∈ builtinLetters) (input : List Byte) (steps : ℕ)
      (m : Machine State Store)
      (h : Config w room { s with append := false } (c :: input) output (2 + steps) m) :
      After (Forward.parseTemplateArg : Parser w Bool)
        (Config w room { s with append := false } input output steps) m :=
    h.forwardTemplateArg (n + 2) hc rfl hdepth harg htype
  obtain ⟨c, args, rfl⟩ := List.exists_cons_of_ne_nil hargs
  rw [List.length_cons, Nat.mul_succ, Nat.add_right_comm, Nat.add_comm _ 2] at h
  have hmuted := h.set (g := fun state => { state with append := false }) fun _ _ _ => rfl
  obtain ⟨m₁, hI, h₁⟩ := hmuted.oneCharToken 'I' (by decide)
  obtain ⟨m₂, hfirst, h₂⟩ := hletter c (hletters c (List.mem_cons_self ..)) _ _ _ h₁
  obtain ⟨m₃, hothers, h₃⟩ := Config.each hletter (refused_templateArg n) rfl args m₂
    (fun d hd => hletters d (List.mem_cons_of_mem _ hd)) h₂
  have hQ : Refused 'E'.toUInt8 0 (parseRequiresClause : Parser w Bool) :=
    refused_parseRequiresClause (by decide)
  rw [← Nat.zero_add steps] at h₃
  obtain ⟨m₄, hclause, h₄⟩ := (h₃.refused hQ rfl).optional
  obtain ⟨m₅, hE, h₅⟩ := h₄.oneCharToken 'E' (by decide)
  have hrestored : Config w room s input output steps ⟨{ m₅.state with
      append := m.state.append, skipSeparator := m.state.skipSeparator }, m₅.store⟩ := by
    rw [h.append, h.skipSeparator]
    exact h₅.set (g := fun state => { state with
      append := s.append, skipSeparator := s.skipSeparator }) fun _ _ _ => rfl
  have hgives : (Text.bytes (bytes "<>")).Gives output (bytes "<>") := rfl
  have happended := hrestored.maybeAppendWithLength hgives happend hover (by decide)
    (fun _ => hangle) hroom
  have hargs : After (oneOrMore Forward.parseTemplateArg : Parser w Bool) (· = m₃) m₁ :=
    .seq hfirst ⟨m₃, hothers, rfl⟩
  obtain ⟨_, hargs, rfl⟩ := hargs
  exact .attempt <| after_saving <| .seq rfl <| .seq hI <| .seq hargs <| .seq hclause <| .seq hE <|
    .seq rfl <| .seq rfl happended

/-! ### Names -/

/-- An identifier that `ParseSourceName` appends as it is. A name in memory is no longer than
`std::numeric_limits<std::int64_t>::max()`. -/
structure Identifier where
  text : List Byte
  first : (isAlpha (text.headD 0) || text.headD 0 == '_'.toUInt8) = true
  others : ∀ c ∈ text, (isAlpha c || isDigit c || c == '_'.toUInt8) = true
  notAnonymous : ¬bytes "_GLOBAL__N_" <+: text
  fits : text.length ≤ kMaxPositive

namespace Identifier

variable (name : Identifier)

theorem ne_nil : name.text ≠ [] := by
  intro hnil
  have hfirst := name.first
  rw [hnil] at hfirst
  exact absurd hfirst (by decide)

theorem length_pos : 0 < name.text.length := List.length_pos_iff.mpr name.ne_nil

theorem headD_append (input : List Byte) : (name.text ++ input).headD 0 = name.text.headD 0 := by
  obtain ⟨c, text, htext⟩ := List.exists_cons_of_ne_nil name.ne_nil
  rw [htext]
  rfl

theorem headD_ne_angle : name.text.headD 0 ≠ '<'.toUInt8 := by
  intro heq
  have hfirst := name.first
  rw [heq] at hfirst
  exact absurd hfirst (by decide)

theorem isDigit_headD : isDigit (name.text.headD 0) = false := by
  have hfirst := name.first
  generalize name.text.headD 0 = c at hfirst
  simp only [isAlpha, Bool.or_eq_true, Bool.and_eq_true, decide_eq_true_eq, beq_iff_eq,
    UInt8.le_iff_toNat_le, ← UInt8.toNat_inj] at hfirst
  simp only [isDigit, Bool.and_eq_false_iff, decide_eq_false_iff_not, UInt8.le_iff_toNat_le]
  revert hfirst
  generalize c.toNat = n
  have hcodes : 'a'.toUInt8.toNat = 97 ∧ 'z'.toUInt8.toNat = 122 ∧ 'A'.toUInt8.toNat = 65 ∧
      'Z'.toUInt8.toNat = 90 ∧ '_'.toUInt8.toNat = 95 ∧ '0'.toUInt8.toNat = 48 ∧
      '9'.toUInt8.toNat = 57 := by decide
  omega

end Identifier

/-- `<identifier>` where an identifier stands. -/
theorem Config.identifier (name : Identifier)
    (h : Config w room s (name.text ++ input) output steps m) (happend : s.append = true)
    (hover : s.overflowed = false) (hroom : output.length + name.text.length < room) :
    After (parseIdentifier name.text.length : Parser w Bool)
      (Config w room (s.remember output.length name.text) input (output ++ name.text) steps) m := by
  have hrest : w.text.drop m.state.mangledCur = name.text ++ input := h.rest
  have htake : (w.array.drop m.state.mangledCur).take name.text.length = name.text := by
    rw [CString.array, List.drop_append_of_le_length h.cursor, hrest, List.append_assoc,
      List.take_left]
  have hnul : name.text.contains 0 = false := by
    rw [List.contains_eq_mem, decide_eq_false_iff_not]
    exact fun hmem => w.noNul (List.mem_of_mem_drop (hrest ▸ List.mem_append_left input hmem))
  have hnamed : (decide ((name.text.length : ℤ) > 11) &&
      (bytes "_GLOBAL__N_").isPrefixOf (name.text ++ input)) = false := by
    rw [Bool.and_eq_false_iff, decide_eq_false_iff_not]
    by_cases hlong : (name.text.length : ℤ) > 11
    · refine .inr (Bool.eq_false_iff.mpr fun hprefix => name.notAnonymous ?_)
      exact List.prefix_of_prefix_length_le (List.isPrefixOf_iff_prefix.mp hprefix)
        (List.prefix_append ..) (by rw [show (bytes "_GLOBAL__N_").length = 11 from rfl]; omega)
    · exact .inl hlong
  have hgives : (Text.bytes ((Demangle.rest w m.state).take name.text.length)).Gives output
      name.text := by
    rw [h.rest]
    exact List.take_left
  obtain ⟨m₁, happended, h₁⟩ := h.maybeAppendWithLength hgives happend hover name.ne_nil
    (fun heq => absurd heq name.headD_ne_angle) hroom
  obtain ⟨m₂, hadvance, h₂⟩ := h₁.advance name.text
  refine ⟨m₂, ?_, h₂⟩
  rw [parseIdentifier, bind_ok (atLeastNumCharsRemaining_run _ _), Int.toNat_natCast, htake, hnul,
    Bool.not_false, Bool.not_true, Bool.or_false,
    if_neg (by rw [decide_eq_true_eq]; exact Int.not_lt.mpr (Int.natCast_nonneg _)),
    bind_ok (identifierIsAnonymousNamespace_run _ _), h.rest, hnamed, if_neg Bool.false_ne_true]
  exact (bind_ok happended).trans hadvance

/-- `<source-name>` where one stands. -/
theorem Config.sourceName (name : Identifier)
    (h : Config w room s (decimal name.text.length ++ (name.text ++ input)) output steps m)
    (happend : s.append = true) (hover : s.overflowed = false)
    (hroom : output.length + name.text.length < room) :
    After (parseSourceName : Parser w Bool)
      (Config w room (s.remember output.length name.text) input (output ++ name.text) steps) m := by
  obtain ⟨m₁, hnumber, h₁⟩ := h.positiveNumber name.length_pos name.fits
    (by rw [name.headD_append]; exact name.isDigit_headD)
  have hsize : (name.text.length : ℤ) ≤ ssizeMax := Int.ofNat_le.mpr name.fits
  refine .attempt (.bind hnumber ?_)
  dsimp only
  rw [if_pos hsize]
  exact h₁.identifier name happend hover hroom

/-- The name that constructors and destructors repeat. -/
theorem Config.appendPrevName (name : Identifier) {lead : List String} {text : List Byte}
    (h : Config w room s input output steps m)
    (hlead : After (appendAll lead : Parser w Bool)
      (Config w room s input (output ++ text) steps) m) (hprev : s.prevName.isSome = true) (hgives :
      s.prevNameText.Gives output name.text)
    (happend : s.append = true) (hover : s.overflowed = false)
    (hroom : (output ++ text).length + name.text.length < room) :
    After (Demangle.appendPrevName lead : Parser w Bool)
      (Config w room (s.remember (output ++ text).length name.text) input
        (output ++ text ++ name.text) steps) m := by
  have htext : m.state.prevNameText = s.prevNameText := by
    rw [State.prevNameText, h.prevName, h.prevNameLength]
    rfl
  obtain ⟨m₁, hrun, h₁⟩ := hlead
  refine after_saving ?_
  rw [h.prevName, if_pos hprev, htext]
  exact .seq hrun (h₁.maybeAppendWithLength (hgives.append text) happend hover name.ne_nil
    (fun heq => absurd heq name.headD_ne_angle) hroom)

theorem Config.digit (n : ℕ) (h : Config w room s (decimal n ++ input) output steps m) :
    isDigit (w.byteAt m.state.mangledCur) = true := by
  obtain ⟨b, text, hdecimal⟩ := List.exists_cons_of_ne_nil (decimal_ne_nil n)
  rw [h.byteAt, hdecimal]
  exact isDigit_of_mem_decimal (hdecimal ▸ List.mem_cons_self : b ∈ decimal n)

theorem ne_of_isDigit {c d : Byte} (hc : isDigit c = true) (hd : isDigit d = false) : c ≠ d :=
  fun heq => absurd ((heq ▸ hc).symm.trans hd) Bool.noConfusion

theorem isLower_of_isDigit {c : Byte} (hc : isDigit c = true) : isLower c = false := by
  simp only [isDigit, Bool.and_eq_true, decide_eq_true_eq, UInt8.le_iff_toNat_le] at hc
  simp only [isLower, Bool.and_eq_false_iff, decide_eq_false_iff_not, UInt8.le_iff_toNat_le]
  have hcodes : '9'.toUInt8.toNat = 57 ∧ 'a'.toUInt8.toNat = 97 := by decide
  omega

/-- The names that repeat the last identifier. -/
inductive Special
  | constructor | destructor

def Special.mangled : Special → List Byte
  | .constructor => bytes "C1"
  | .destructor => bytes "D1"

/-- What stands before the repeated identifier. -/
def Special.lead : Special → List Byte
  | .constructor => []
  | .destructor => bytes "~"

def Special.demangled (last : Identifier) (special : Special) : List Byte :=
  special.lead ++ last.text

theorem Special.length_mangled (special : Special) : special.mangled.length = 2 := by
  cases special <;> rfl

section Grammar

variable [Forward w]

/-- A component that is an identifier, which no ABI tag follows. -/
theorem Config.nameComponent (name : Identifier)
    (h : Config w room s (decimal name.text.length ++ (name.text ++ input)) output steps m)
    (htag : input.headD 0 ≠ 'B'.toUInt8) (happend : s.append = true) (hover : s.overflowed = false)
    (hroom : output.length + name.text.length < room) :
    After (parseTemplateParam <||> parseSubstitution <||> parseUnscopedName : Parser w Bool)
      (Config w room (s.remember output.length name.text) input (output ++ name.text) steps) m := by
  have hdigit := h.digit
  have hne (d : Byte) (hd : isDigit d = false) : w.byteAt m.state.mangledCur ≠ d :=
    ne_of_isDigit hdigit hd
  refine Declines.or_after (declines_parseTemplateParam h.cursor (hne _ (by decide))) ?_
  refine Declines.or_after (declines_parseSubstitution h.cursor (hne _ (by decide))) ?_
  refine After.or ?_
  refine Declines.or_after (.attempt (.and
    (declines_parseOperatorName h.cursor (isLower_of_isDigit hdigit)))) ?_
  refine Declines.or_after (.attempt (declines_parseCtorDtorName h.cursor (hne _ (by decide))
    (hne _ (by decide)))) ?_
  refine After.attempt ?_
  refine Declines.or_after (.and (declines_atTwoChars h.cursor 'U' "lt" (hne _ (by decide)))) ?_
  refine Declines.or_after (.and (declines_atTwoChars h.cursor 'D' "C" (hne _ (by decide)))) ?_
  obtain ⟨m₁, hrun, h₁⟩ := h.sourceName name happend hover hroom
  exact After.or (.seq hrun ((declines_parseAbiTags h₁.cursor (h₁.byteAt ▸ htag)).optional h₁))

/-- A component that is a constructor. -/
theorem Config.constructor (name : Identifier)
    (h : Config w room s (bytes "C1" ++ input) output steps m) (hprev : s.prevName.isSome = true)
    (hgives : s.prevNameText.Gives output name.text) (happend : s.append = true)
    (hover : s.overflowed = false) (hroom : output.length + name.text.length < room) :
    After (parseTemplateParam <||> parseSubstitution <||> parseUnscopedName : Parser w Bool)
      (Config w room (s.remember output.length name.text) input (output ++ name.text) steps) m := by
  have hfirst : w.byteAt m.state.mangledCur = 'C'.toUInt8 := h.byteAt
  have htoken : bytes "C1" <+: Demangle.rest w m.state := h.rest ▸ List.prefix_append ..
  refine Declines.or_after (declines_parseTemplateParam h.cursor (hfirst ▸ by decide)) ?_
  refine Declines.or_after (declines_parseSubstitution h.cursor (hfirst ▸ by decide)) ?_
  refine After.or ?_
  refine Declines.or_after (.attempt (.and
    (declines_parseOperatorName h.cursor (hfirst ▸ by decide)))) ?_
  refine After.or (.attempt ?_)
  have hother : Declines (parseTwoCharToken "CI" : Parser w Bool) m :=
    declines_of_prefix rfl rfl h.cursor htoken (by decide)
  refine Declines.or_after (.attempt (.and hother)) ?_
  obtain ⟨m₁, hC, h₁⟩ := h.oneCharToken 'C' (by decide)
  obtain ⟨m₂, hclass, h₂⟩ := h₁.charClass "12345" (by decide) (by decide)
  have hlead : After (appendAll [] : Parser w Bool)
      (Config w room s input (output ++ []) steps) m₂ := ⟨m₂, rfl, by rwa [List.append_nil]⟩
  have hname := h₂.appendPrevName name hlead hprev hgives happend hover (by rwa [List.append_nil])
  rw [List.append_nil] at hname
  exact After.or (.attempt (.seq hC (.seq hclass hname)))

/-- A component that is a destructor. -/
theorem Config.destructor (name : Identifier)
    (h : Config w room s (bytes "D1" ++ input) output steps m) (hprev : s.prevName.isSome = true)
    (hgives : s.prevNameText.Gives output name.text) (happend : s.append = true)
    (hover : s.overflowed = false) (hroom : output.length + (1 + name.text.length) < room) :
    After (parseTemplateParam <||> parseSubstitution <||> parseUnscopedName : Parser w Bool)
      (Config w room (s.remember (output ++ bytes "~").length name.text) input
        (output ++ bytes "~" ++ name.text) steps) m := by
  have hfirst : w.byteAt m.state.mangledCur = 'D'.toUInt8 := h.byteAt
  refine Declines.or_after (declines_parseTemplateParam h.cursor (hfirst ▸ by decide)) ?_
  refine Declines.or_after (declines_parseSubstitution h.cursor (hfirst ▸ by decide)) ?_
  refine After.or ?_
  refine Declines.or_after (.attempt (.and
    (declines_parseOperatorName h.cursor (hfirst ▸ by decide)))) ?_
  refine After.or (.attempt ?_)
  refine Declines.or_after (.attempt (.and (declines_parseTwoCharToken "CI" _ h.cursor
    (hfirst ▸ by decide)))) ?_
  refine Declines.or_after (.attempt (.and (declines_parseOneCharToken 'C' _ h.cursor
    (hfirst ▸ by decide)))) ?_
  obtain ⟨m₁, hD, h₁⟩ := h.oneCharToken 'D' (by decide)
  obtain ⟨m₂, hclass, h₂⟩ := h₁.charClass "01245" (by decide) (by decide)
  have htilde : (Text.bytes (bytes "~")).Gives output (bytes "~") := rfl
  obtain ⟨m₃, happended, h₃⟩ := h₂.maybeAppendWithLength htilde happend hover (by decide)
    (fun heq => absurd heq (by decide)) (by rw [show (bytes "~").length = 1 from rfl]; omega)
  have hlead : After (appendAll ["~"] : Parser w Bool)
      (Config w room s input (output ++ bytes "~") steps) m₂ := .seq happended ⟨m₃, rfl, h₃⟩
  have hname := h₂.appendPrevName name hlead hprev hgives happend hover
    (by rw [List.length_append, Nat.add_assoc]; exact hroom)
  exact .attempt (.seq hD (.seq hclass hname))

/-- A component that repeats the last identifier. -/
theorem Config.special (special : Special) (name : Identifier)
    (h : Config w room s (special.mangled ++ input) output steps m)
    (hprev : s.prevName.isSome = true) (hgives : s.prevNameText.Gives output name.text)
    (happend : s.append = true) (hover : s.overflowed = false)
    (hroom : output.length + (special.lead.length + name.text.length) < room) :
    After (parseTemplateParam <||> parseSubstitution <||> parseUnscopedName : Parser w Bool)
      (Config w room (s.remember (output ++ special.lead).length name.text) input
        (output ++ special.demangled name) steps) m := by
  cases special with
  | constructor =>
    rw [Special.demangled, Special.lead, List.append_nil, List.nil_append]
    rw [Special.lead, List.length_nil, Nat.zero_add] at hroom
    exact h.constructor name hprev hgives happend hover hroom
  | destructor =>
    rw [Special.demangled, ← List.append_assoc]
    exact h.destructor name hprev hgives happend hover hroom

end Grammar

end Demangle

end NgLog
