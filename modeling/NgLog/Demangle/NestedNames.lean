import Mathlib.Algebra.GroupWithZero.Nat
import NgLog.Demangle.PrefixItems

/-!
# Names of functions in nested scopes

A nested name is a list of components, each with or without template arguments, and it may be that
of a constructor or a destructor. Mangled as the name of a function without parameters, it is read
back: the output is the components, separated by `::`, with `<>` for template arguments and `()` at
the end.

## Main definitions

* `Component`, `Special`, `NestedName` — the names
* `NestedName.mangled`, `NestedName.demangled` — a name as it is read, and as it is printed

## Main results

* `Config.components` — the loop of `ParsePrefix` over the components
* `demangle_mangled` — the round trip
-/

namespace NgLog

namespace Demangle

open Backtracking (Machine)
open Backtracking.Parser (After Fails Declines)

/-! ### Nested names -/

/-- A component: an identifier and its template arguments, none if there is no group of them. -/
structure Component where
  name : Identifier
  args : List Byte
  builtin : ∀ c ∈ args, c ∈ builtinLetters

/-- The length and the identifier. -/
def Component.mangledName (c : Component) : List Byte :=
  decimal c.name.text.length ++ c.name.text

/-- `I <template-arg>+ E`, or nothing. -/
def Component.mangledArgs (c : Component) : List Byte :=
  if c.args = [] then [] else 'I'.toUInt8 :: c.args ++ ['E'.toUInt8]

def Component.mangled (c : Component) : List Byte := c.mangledName ++ c.mangledArgs

/-- What stands for the template arguments in the output. -/
def Component.demangledArgs (c : Component) : List Byte := if c.args = [] then [] else bytes "<>"

def Component.demangled (c : Component) : List Byte := c.name.text ++ c.demangledArgs

/-- The name of a function in nested scopes. -/
structure NestedName where
  first : Component
  others : List Component
  special : Option Special
  few : (first :: others).length ≤ 32000
  fewArgs : ((first :: others).map fun c => c.args.length).sum ≤ 1000

/-- The last of a list of components that starts with `c`. -/
def lastName (c : Component) (cs : List Component) : Identifier :=
  ((c :: cs).getLast (List.cons_ne_nil c cs)).name

/-- The output for the components behind `c`, and for the constructor or destructor. -/
def laterParts (c : Component) (cs : List Component) (special : Option Special) :
    List (List Byte) :=
  cs.map Component.demangled ++ special.toList.map (Special.demangled (lastName c cs))

namespace NestedName

variable (x : NestedName)

/-- The mangled name between `N` and `E`. -/
def mangledPrefix : List Byte :=
  (x.first :: x.others).flatMap Component.mangled ++ x.special.toList.flatMap Special.mangled

/-- The name as that of a function without parameters. -/
def mangled : List Byte := bytes "_ZN" ++ x.mangledPrefix ++ bytes "Ev"

/-- The parts that `::` separates. -/
def parts : List (List Byte) := x.first.demangled :: laterParts x.first x.others x.special

/-- The output for the name. -/
def demangled : List Byte := List.intercalate (bytes "::") x.parts ++ bytes "()"

end NestedName

variable {w : CString} {room : ℕ} {s : State} {input output : List Byte} {steps level : ℕ}
  {m : Machine State Store}

/-! ### Template arguments -/

theorem Component.angles (c : Component) (before : List Byte) :
    (before ++ c.name.text).getLast? ≠ some '<'.toUInt8 := by
  intro hlast
  rw [List.getLast?_append, Option.or_of_isSome (List.getLast?_isSome.mpr c.name.ne_nil)] at hlast
  exact absurd (c.name.others _ (List.mem_of_getLast? hlast)) (by decide)

/-- The name of a component is in the output where it was appended. -/
theorem Component.gives (c : Component) (before : List Byte) :
    (Text.out before.length c.name.text.length).Gives (before ++ c.demangled) c.name.text := by
  refine ⟨rfl, ?_⟩
  rw [List.drop_left, Component.demangled, List.take_left]

theorem Component.append_demangled (c : Component) (before : List Byte) :
    before ++ c.name.text ++ c.demangledArgs = before ++ c.demangled := List.append_assoc ..

theorem Component.room_of_demangled (c : Component) (before : List Byte) {later : List Byte}
    (hroom : (before ++ c.demangled ++ later).length + 2 < room) :
    (before ++ c.name.text).length + 2 < room := by
  simp only [Component.demangled, List.length_append] at hroom ⊢
  omega

/-- The round for the template arguments of a component, if it has any. -/
theorem Config.argsRound (n : ℕ) (c : Component) {P : Machine State Store → Prop}
    (h : Config w room s (c.mangledArgs ++ input) output (7 * c.args.length + steps) m)
    (hin : Inside s level) (hpos : 1 ≤ level) (hlt : level < 2 ^ 15)
    (hangle : output.getLast? ≠ some '<'.toUInt8) (hroom : output.length + 2 < room)
    (hrounds : ∀ m₁, Config w room s input (output ++ c.demangledArgs) steps m₁ →
      letI := forwardAt w (n + 4)
      After (zeroOrMore (parsePrefixItem true) : Parser w Bool) P m₁) :
    letI := forwardAt w (n + 4)
    After (zeroOrMore (parsePrefixItem true) : Parser w Bool) P m := by
  by_cases hargs : c.args = []
  · rw [Component.mangledArgs, if_pos hargs, List.nil_append] at h
    rw [Component.demangledArgs, if_pos hargs, List.append_nil] at hrounds
    exact hrounds m (h.mono (Nat.le_add_left ..))
  · rw [Component.mangledArgs, if_neg hargs, List.append_assoc] at h
    rw [Component.demangledArgs, if_neg hargs] at hrounds
    have hlen := List.length_pos_iff.mpr hargs
    have henough :=
      h.mono (show 2 * c.args.length + (5 + steps) ≤ 7 * c.args.length + steps by omega)
    have hread : input.length < ('I'.toUInt8 :: c.args ++ (['E'.toUInt8] ++ input)).length := by
      simp only [List.length_append, List.length_cons]
      omega
    exact h.round hread (henough.argsItem n hin hpos hlt hargs c.builtin hangle hroom) hrounds

/-! ### The loop over the components -/

/-- The text of the components behind the first one. -/
def laterText (c : Component) (cs : List Component) (special : Option Special) : List Byte :=
  (laterParts c cs special).flatMap (bytes "::" ++ ·)

theorem laterText_cons (c d : Component) (cs : List Component) (special : Option Special) :
    laterText c (d :: cs) special = bytes "::" ++ d.demangled ++ laterText d cs special := rfl

/-- The template arguments in a list of components. -/
def argCount (cs : List Component) : ℕ := (cs.map fun c => c.args.length).sum

theorem argCount_cons (c : Component) (cs : List Component) :
    argCount (c :: cs) = c.args.length + argCount cs := List.sum_cons

section Grammar

variable [Forward w]

/-- The loop is over at the end of the nested name. -/
theorem Config.lastRound {base : ℕ} {start : Option ℕ} {length : ℤ}
    (h : Config w room (s.named (Int16.ofNat level) start length) ('E'.toUInt8 :: input) output
      steps m)
    (hin : Inside s base) (hpos : 1 ≤ level) (hlt : level < 2 ^ 15)
    (hroom : output.length + 2 < room) :
    After (zeroOrMore (parsePrefixItem true) : Parser w Bool) (fun m' => ∃ level start length,
      Config w room (s.named level start length) ('E'.toUInt8 :: input) output steps m') m := by
  obtain ⟨m₁, hrun, h₁⟩ := h.lastItem (hin.named level start length) hpos hlt hroom
  exact Fails.zeroOrMore ⟨m₁, hrun, _, _, _, h₁⟩

theorem separatorAt_of_pos (hpos : 1 ≤ level) : separatorAt level = bytes "::" :=
  if_neg (Nat.pos_iff_ne_zero.mp hpos)

/-- Behind the last component: a constructor, a destructor or nothing. -/
theorem Config.specialRound {base start : ℕ} (special : Option Special) (c : Component)
    (h : Config w room (s.named (Int16.ofNat level) (some start) c.name.text.length)
      (special.toList.flatMap Special.mangled ++ 'E'.toUInt8 :: input) output steps m)
    (hin : Inside s base) (hpos : 1 ≤ level) (hlt : level + 1 < 2 ^ 15)
    (hgives : (Text.out start c.name.text.length).Gives output c.name.text)
    (hroom : (output ++ laterText c [] special).length + 2 < room) :
    After (zeroOrMore (parsePrefixItem true) : Parser w Bool) (fun m' => ∃ level start length,
      Config w room (s.named level start length) ('E'.toUInt8 :: input)
        (output ++ laterText c [] special) steps m') m := by
  have hlevel : level < 2 ^ 15 := Nat.lt_of_succ_lt hlt
  cases special with
  | none =>
    rw [show laterText c [] none = [] from rfl, List.append_nil] at hroom ⊢
    exact h.lastRound hin hpos hlevel hroom
  | some special =>
    have hlater : laterText c [] (some special) = bytes "::" ++ special.demangled c.name :=
      List.append_nil _
    rw [hlater, ← List.append_assoc] at hroom ⊢
    have hlen : (output ++ bytes "::").length = output.length + 2 := List.length_append
    have hname : (output ++ bytes "::" ++ special.demangled c.name).length =
        output.length + 2 + (special.lead.length + c.name.text.length) := by
      rw [List.length_append, hlen, Special.demangled, List.length_append]
    have hseparator := separatorAt_of_pos hpos
    have hinput : (some special).toList.flatMap Special.mangled = special.mangled :=
      List.append_nil _
    rw [hinput] at h
    have hitem : After (parsePrefixItem true : Parser w Bool) (Config w room
        (s.named (Int16.ofNat (level + 1)) (some (output ++ bytes "::" ++ special.lead).length)
          c.name.text.length)
        ('E'.toUInt8 :: input) (output ++ bytes "::" ++ special.demangled c.name) steps) m := by
      refine h.componentItem c.name true (hin.named level (some start) _) hlevel ?_ fun m₁ h₁ => ?_
      · rw [hseparator]
        show output.length + 2 < room
        omega
      · rw [hseparator] at h₁
        exact h₁.special special c.name rfl (hgives.append _) hin.append hin.overflowed (by omega)
    refine h.round ?_ hitem fun m₁ h₁ => h₁.lastRound hin (Nat.succ_pos _) hlt hroom
    rw [List.length_append, special.length_mangled]
    omega

end Grammar

/-- What may follow the name of a component is no ABI tag. -/
theorem headD_later (c : Component) (cs : List Component) (special : Option Special) :
    (c.mangledArgs ++ (cs.flatMap Component.mangled ++
      (special.toList.flatMap Special.mangled ++ 'E'.toUInt8 :: input))).headD 0 ≠ 'B'.toUInt8 := by
  rw [Component.mangledArgs]
  split
  · rcases cs with _ | ⟨d, cs⟩
    · rcases special with _ | _ | _
      · exact (by decide : 'E'.toUInt8 ≠ 'B'.toUInt8)
      · exact (by decide : 'C'.toUInt8 ≠ 'B'.toUInt8)
      · exact (by decide : 'D'.toUInt8 ≠ 'B'.toUInt8)
    · obtain ⟨b, text, hdecimal⟩ :=
        List.exists_cons_of_ne_nil (decimal_ne_nil d.name.text.length)
      rw [List.flatMap_cons, Component.mangled, Component.mangledName, hdecimal]
      exact ne_of_isDigit (isDigit_of_mem_decimal (hdecimal ▸ List.mem_cons_self)) (by decide)
  · exact (by decide : 'I'.toUInt8 ≠ 'B'.toUInt8)

/-- The rounds behind the name of the component `c`, for the components that follow it. -/
theorem Config.components {base : ℕ} (n : ℕ) (special : Option Special) (hin : Inside s base) :
    ∀ (cs : List Component) (c : Component) (level : ℕ) (before : List Byte)
      (m : Machine State Store), 1 ≤ level → level + cs.length + 1 < 2 ^ 15 →
      Config w room (s.named (Int16.ofNat level) (some before.length) c.name.text.length)
        (c.mangledArgs ++ (cs.flatMap Component.mangled ++
          (special.toList.flatMap Special.mangled ++ 'E'.toUInt8 :: input)))
        (before ++ c.name.text) (7 * argCount (c :: cs) + steps) m →
      (before ++ c.demangled ++ laterText c cs special).length + 2 < room →
      letI := forwardAt w (n + 4)
      After (zeroOrMore (parsePrefixItem true) : Parser w Bool) (fun m' => ∃ level start length,
        Config w room (s.named level start length) ('E'.toUInt8 :: input)
          (before ++ c.demangled ++ laterText c cs special) steps m') m := by
  intro cs
  induction cs with
  | nil =>
    intro c level before m hpos hlt h hroom
    rw [argCount_cons, Nat.mul_add, Nat.add_assoc] at h
    refine h.argsRound n c (hin.named level _ _) hpos (by omega) (c.angles before)
      (c.room_of_demangled _ hroom) fun m₁ h₁ => ?_
    rw [c.append_demangled] at h₁
    have h₁ := h₁.mono (Nat.le_add_left steps (7 * argCount []))
    exact letI := forwardAt w (n + 4)
      h₁.specialRound special c hin hpos hlt (c.gives before) hroom
  | cons d cs ih =>
    intro c level before m hpos hlt h hroom
    rw [argCount_cons, Nat.mul_add, Nat.add_assoc] at h
    refine h.argsRound n c (hin.named level _ _) hpos (by omega) (c.angles before)
      (c.room_of_demangled _ hroom) fun m₁ h₁ => ?_
    have hlater : before ++ c.demangled ++ laterText c (d :: cs) special =
        before ++ c.demangled ++ bytes "::" ++ d.demangled ++ laterText d cs special := by
      rw [laterText_cons, ← List.append_assoc, ← List.append_assoc]
    rw [List.flatMap_cons, Component.mangled, Component.mangledName, List.append_assoc,
      List.append_assoc, List.append_assoc, c.append_demangled] at h₁
    rw [hlater] at hroom ⊢
    let _ : Forward w := forwardAt w (n + 4)
    have hname := d.room_of_demangled _ hroom
    have hitem : After (parsePrefixItem true : Parser w Bool) (Config w room
        (s.named (Int16.ofNat (level + 1)) (some (before ++ c.demangled ++ bytes "::").length)
          d.name.text.length)
        (d.mangledArgs ++ (cs.flatMap Component.mangled ++
          (special.toList.flatMap Special.mangled ++ 'E'.toUInt8 :: input)))
        (before ++ c.demangled ++ bytes "::" ++ d.name.text)
        (7 * argCount (d :: cs) + steps)) m₁ := by
      refine h₁.componentItem d.name true (hin.named level _ _) (by omega) ?_ fun m₂ h₂ => ?_
      · rw [separatorAt_of_pos hpos, ← List.length_append]
        rw [List.length_append] at hname
        omega
      · rw [separatorAt_of_pos hpos] at h₂
        exact h₂.nameComponent d.name (headD_later d cs special) hin.append hin.overflowed (by
          rw [List.length_append] at hname
          omega)
    refine h₁.round ?_ hitem fun m₂ h₂ => ih d (level + 1) _ m₂ (Nat.succ_pos _) ?_ h₂ hroom
    · have hdigits := List.length_pos_iff.mpr (decimal_ne_nil d.name.text.length)
      simp only [List.length_append]
      omega
    · rw [List.length_cons] at hlt
      omega

/-! ### From the prefix to the mangled name -/

namespace NestedName

variable (x : NestedName)

theorem intercalate_eq (sep part : List Byte) (parts : List (List Byte)) :
    List.intercalate sep (part :: parts) = part ++ parts.flatMap (sep ++ ·) := by
  induction parts generalizing part with
  | nil => rw [List.intercalate_singleton, List.flatMap_nil, List.append_nil]
  | cons next parts ih =>
    rw [List.intercalate_cons_cons, ih, List.flatMap_cons, List.append_assoc, List.append_assoc]

theorem isDigit_headD (tail : List Byte) : isDigit ((x.mangledPrefix ++ tail).headD 0) = true := by
  obtain ⟨b, text, hdecimal⟩ := List.exists_cons_of_ne_nil (decimal_ne_nil x.first.name.text.length)
  rw [mangledPrefix, List.flatMap_cons, Component.mangled, Component.mangledName, hdecimal]
  exact isDigit_of_mem_decimal (hdecimal ▸ List.mem_cons_self : b ∈ decimal _)

/-- What is between `N` and `E` is printed as the components, separated by `::`. -/
theorem joined_eq : List.intercalate (bytes "::") x.parts =
    x.first.demangled ++ laterText x.first x.others x.special := intercalate_eq ..

/-- The number of template arguments. -/
def args : ℕ := argCount (x.first :: x.others)

theorem args_le : x.args ≤ 1000 := x.fewArgs

end NestedName

/-- `<prefix>`: the components and what follows them. -/
theorem Config.prefixes (n : ℕ) (x : NestedName)
    (h : Config w room s (x.mangledPrefix ++ 'E'.toUInt8 :: input) [] (1 + (7 * x.args + steps)) m)
    (hin : Inside { s with parseDepth := s.parseDepth + 1 } 0)
    (hroom : (List.intercalate (bytes "::") x.parts).length + 2 < room) :
    letI := forwardAt w (n + 4)
    After (parsePrefix : Parser w Bool) (fun m' => ∃ level start length,
      Config w room (s.named level start length) ('E'.toUInt8 :: input)
        (List.intercalate (bytes "::") x.parts) steps m') m := by
  let _ : Forward w := forwardAt w (n + 4)
  have hfew := x.few
  rw [List.length_cons] at hfew
  have hinner := h.deeper
  rw [NestedName.mangledPrefix, List.flatMap_cons, Component.mangled, Component.mangledName,
    List.append_assoc, List.append_assoc, List.append_assoc, List.append_assoc] at hinner
  rw [x.joined_eq] at hroom ⊢
  have hname := x.first.room_of_demangled [] hroom
  rw [List.nil_append] at hname
  have hstart : 0 + (separatorAt 0).length < room := by
    show 0 < room
    omega
  obtain ⟨m₁, hfirst, h₁⟩ := hinner.componentItem x.first.name false hin (by decide) hstart
    fun m₁ h₁ => h₁.nameComponent x.first.name (headD_later x.first x.others x.special) hin.append
      hin.overflowed (by
        show 0 + x.first.name.text.length < room
        omega)
  obtain ⟨m₂, hothers, level, start, length, h₂⟩ :=
    Config.components n x.special hin x.others x.first 1
    [] m₁ (Nat.le_refl 1) (by omega) h₁ hroom
  have hbody : After (optional (parsePrefixItem false <&&> zeroOrMore (parsePrefixItem true)) :
      Parser w Bool) (Config w room
        { s.named level start length with parseDepth := s.parseDepth + 1 } ('E'.toUInt8 :: input)
        (x.first.demangled ++ laterText x.first x.others x.special) steps) (Demangle.deeper m) :=
    .optional (.seq hfirst ⟨m₂, hothers, h₂⟩)
  have hdepth : s.parseDepth < maxLevel .depth := Nat.lt_of_succ_lt (Nat.lt_of_succ_lt hin.depth)
  obtain ⟨m₃, hprefix, h₃⟩ : After (parsePrefix : Parser w Bool) (Config w room
      (s.named level start length) ('E'.toUInt8 :: input)
      (x.first.demangled ++ laterText x.first x.others x.special) steps) m :=
    h.guardDepth hdepth rfl hbody
  exact ⟨m₃, hprefix, level, start, length, h₃⟩

/-- `<nested-name>`. -/
theorem Config.nestedName (n : ℕ) (x : NestedName)
    (h : Config w room s ('N'.toUInt8 :: (x.mangledPrefix ++ 'E'.toUInt8 :: input)) []
      (2 + (7 * x.args + steps)) m)
    (hin : Inside { s with nestLevel := 0, parseDepth := s.parseDepth + 2 } 0)
    (hroom : (List.intercalate (bytes "::") x.parts).length + 2 < room) :
    letI := forwardAt w (n + 5)
    After (parseNestedName : Parser w Bool) (fun m' => ∃ start length,
      Config w room { s.named s.nestLevel start length with pendingRefQualifier := 0 } input
        (List.intercalate (bytes "::") x.parts) steps m') m := by
  let _ : Forward w := forwardAt w (n + 5)
  have hne (d : Byte) (hd : isDigit d = false) :
      (x.mangledPrefix ++ 'E'.toUInt8 :: input).headD 0 ≠ d := ne_of_isDigit (x.isDigit_headD _) hd
  rw [Nat.add_assoc 1 1] at h
  obtain ⟨m₁, hN, h₁⟩ := h.deeper.oneCharToken 'N' (by decide)
  have h₂ := h₁.set (g := fun state => { state with nestLevel := 0 }) fun _ _ _ => rfl
  rw [← Nat.zero_add (1 + _)] at h₂
  obtain ⟨m₃, hqualifiers, h₃⟩ := (h₂.refused (refused_parseCVQualifiers (hne _ (by decide))
    (hne _ (by decide)) (hne _ (by decide))) rfl).optional
  have href := h₃.noRefQualifier (hne _ (by decide)) (hne _ (by decide))
  obtain ⟨m₄, hprefix, level, start, length, h₄⟩ := h₃.prefixes n x hin hroom
  have h₅ := h₄.set (g := fun state => { state with
    pendingRefQualifier := 0, nestLevel := s.nestLevel }) fun _ _ _ => rfl
  obtain ⟨m₆, hE, h₆⟩ := h₅.oneCharToken 'E' (by decide)
  have hleave : leaveNestedName (w := w) (Demangle.deeper m).state.nestLevel =
      leaveNestedName s.nestLevel := congrArg _ h.deeper.nestLevel
  have hbody : After (attempt (saving fun copy => parseOneCharToken 'N' <&&> enterNestedName <&&>
      optional parseCVQualifiers <&&> do
        let refQualifier ← parseRefQualifier
        Forward.parsePrefix <&&> setPendingRefQualifier refQualifier <&&>
          leaveNestedName copy.nestLevel <&&> parseOneCharToken 'E') : Parser w Bool)
      (Config w room { s.named s.nestLevel start length with
          pendingRefQualifier := 0, parseDepth := s.parseDepth + 1 } input
        (List.intercalate (bytes "::") x.parts) steps) (Demangle.deeper m) := by
    refine .attempt (after_saving ?_)
    rw [hleave]
    exact .seq hN <| .seq rfl <| .seq hqualifiers <| .bind href <| .seq hprefix <| .seq rfl <|
      .seq rfl ⟨m₆, hE, h₆⟩
  have hdepth : s.parseDepth < maxLevel .depth :=
    Nat.lt_of_succ_lt (Nat.lt_of_succ_lt (Nat.lt_of_succ_lt hin.depth))
  obtain ⟨m₇, hnested, h₇⟩ : After (parseNestedName : Parser w Bool) (Config w room
      { s.named s.nestLevel start length with pendingRefQualifier := 0 } input
      (List.intercalate (bytes "::") x.parts) steps) m := h.guardDepth hdepth rfl hbody
  exact ⟨m₇, hnested, start, length, h₇⟩

/-- `<name>` that is a nested name. -/
theorem Config.name (n : ℕ) (x : NestedName)
    (h : Config w room s ('N'.toUInt8 :: (x.mangledPrefix ++ 'E'.toUInt8 :: input)) []
      (3 + (7 * x.args + steps)) m)
    (hin : Inside { s with nestLevel := 0, parseDepth := s.parseDepth + 3 } 0)
    (hroom : (List.intercalate (bytes "::") x.parts).length + 2 < room) :
    letI := forwardAt w (n + 6)
    After (parseName : Parser w Bool) (fun m' => ∃ start length,
      Config w room { s.named s.nestLevel start length with pendingRefQualifier := 0 } input
        (List.intercalate (bytes "::") x.parts) steps m') m := by
  let _ : Forward w := forwardAt w (n + 6)
  rw [Nat.add_assoc 1 2] at h
  obtain ⟨m₁, hnested, start, length, h₁⟩ := h.deeper.nestedName n x hin hroom
  have hbody : After ((Forward.parseNestedName <||> Forward.parseLocalName) <||>
      attempt (parseUnscopedTemplateName <&&> parseTemplateArgs) <||> parseUnscopedName :
        Parser w Bool)
      (Config w room { s.named s.nestLevel start length with
          pendingRefQualifier := 0, parseDepth := s.parseDepth + 1 } input
        (List.intercalate (bytes "::") x.parts) steps) (Demangle.deeper m) :=
    After.or (After.or ⟨m₁, hnested, h₁⟩)
  have hdepth : s.parseDepth < maxLevel .depth := by
    have hinner : s.parseDepth + 3 + 1 < maxLevel .depth := hin.depth
    omega
  obtain ⟨m₂, hname, h₂⟩ : After (parseName : Parser w Bool) (Config w room
      { s.named s.nestLevel start length with pendingRefQualifier := 0 } input
      (List.intercalate (bytes "::") x.parts) steps) m := h.guardDepth hdepth rfl hbody
  exact ⟨m₂, hname, start, length, h₂⟩

/-- `<bare-function-type>` of a function without parameters. -/
theorem Config.noParameters (n : ℕ) (h : Config w room s (bytes "v") output (5 + steps) m)
    (happend : s.append = true) (hover : s.overflowed = false)
    (hdepth : s.parseDepth < maxLevel .depth) (htype : s.typeLevel < maxLevel .type)
    (hroom : output.length + 2 < room) :
    letI := forwardAt w (n + 4)
    After (parseBareFunctionType : Parser w Bool)
      (Config w room s [] (output ++ bytes "()") steps) m := by
  let _ : Forward w := forwardAt w (n + 4)
  rw [Nat.add_assoc 1 4] at h
  have hmuted := h.set (g := fun state => { state with append := false }) fun _ _ _ => rfl
  obtain ⟨m₁, hv, h₁⟩ : After ((forwardAt w (n + 4)).parseType : Parser w Bool)
      (Config w room { s with append := false } [] output (4 + steps)) _ :=
    letI := forwardAt w (n + 3)
    hmuted.builtin (by decide) rfl hdepth htype
  have hend : Refused 0 4 ((forwardAt w (n + 4)).parseType : Parser w Bool) :=
    refused_forwardAt_parseType (by decide) (n + 1)
  obtain ⟨m₂, hnone, h₂⟩ : After (zeroOrMore (forwardAt w (n + 4)).parseType : Parser w Bool)
      (Config w room { s with append := false } [] output steps) m₁ :=
    (h₁.refused hend rfl).zeroOrMore
  have hrestored : Config w room s [] output steps
      ⟨{ m₂.state with append := m.state.append }, m₂.store⟩ := by
    rw [h.append]
    exact h₂.set (g := fun state => { state with append := s.append }) fun _ _ _ => rfl
  have hgives : (Text.bytes (bytes "()")).Gives output (bytes "()") := rfl
  have happended := hrestored.maybeAppendWithLength hgives happend hover (by decide)
    (fun heq => absurd heq (by decide)) hroom
  have htypes : After (oneOrMore Forward.parseType : Parser w Bool) (· = m₂) _ :=
    .seq hv ⟨m₂, hnone, rfl⟩
  obtain ⟨_, htypes, rfl⟩ := htypes
  exact .attempt <| after_saving <| .seq rfl <| .seq htypes <| .seq rfl happended

/-- A requires clause that is not there is passed over. -/
theorem Config.noRequiresClause [Forward w] (h : Config w room s input output steps m)
    (hQ : input.headD 0 ≠ 'Q'.toUInt8) :
    After (optional parseRequiresClause : Parser w Bool)
      (Config w room s input output steps) m := by
  rw [← Nat.zero_add steps] at h
  exact (h.refused (refused_parseRequiresClause hQ) rfl).optional

/-- `<encoding>` of a function without parameters. -/
theorem Config.encoding (n : ℕ) (x : NestedName)
    (h : Config w room s ('N'.toUInt8 :: (x.mangledPrefix ++ bytes "Ev")) []
      (9 + (7 * x.args + steps)) m)
    (hin : Inside { s with nestLevel := 0, parseDepth := s.parseDepth + 4 } 0)
    (hlevel : s.encodingLevel < maxLevel .encoding) (hroom : x.demangled.length < room) :
    letI := forwardAt w (n + 7)
    After (parseEncoding : Parser w Bool) (fun m' => ∃ start length,
      Config w room { s.named s.nestLevel start length with pendingRefQualifier := 0 } []
        x.demangled steps m') m := by
  let _ : Forward w := forwardAt w (n + 7)
  have hjoined : (List.intercalate (bytes "::") x.parts).length + 2 < room := by
    rw [NestedName.demangled, List.length_append] at hroom
    exact hroom
  have hdepth : s.parseDepth + 4 + 1 < maxLevel .depth := hin.depth
  have hsteps : 9 + (7 * x.args + steps) = 1 + (3 + (7 * x.args + (5 + steps))) := by omega
  rw [hsteps] at h
  have hinner : Config w room
      { s with parseDepth := s.parseDepth + 1, encodingLevel := s.encodingLevel + 1 }
      ('N'.toUInt8 :: (x.mangledPrefix ++ bytes "Ev")) [] (3 + (7 * x.args + (5 + steps))) _ :=
    h.deeper.entered .encoding
  obtain ⟨m₁, hname, start, length, h₁⟩ := hinner.name n x
    ⟨hin.append, hin.overflowed, hin.skipSeparator, rfl, hdepth, hin.templateArg, hin.type⟩ hjoined
  have hv : 'v'.toUInt8 ≠ 'Q'.toUInt8 := by decide
  have hnul : (0 : Byte) ≠ 'Q'.toUInt8 := by decide
  obtain ⟨m₂, hclause, h₂⟩ := h₁.noRequiresClause hv
  obtain ⟨m₃, htypes, h₃⟩ := h₂.noParameters (n + 3) hin.append hin.overflowed
    (show s.parseDepth + 1 < maxLevel .depth by omega) hin.type hjoined
  have hqualifier : appendRefQualifier (w := w) m₃ = .ok (true, m₃) := by
    rw [appendRefQualifier, saving_run, h₃.pendingRefQualifier]
    rfl
  have h₄ := h₃.set (g := fun state => { state with pendingRefQualifier := 0 }) fun _ _ _ => rfl
  obtain ⟨m₅, hclause', h₅⟩ := h₄.noRequiresClause hnul
  have hbody : After (attempt (Forward.parseName <&&> optional parseRequiresClause <&&>
      parseBareFunctionType <&&> appendRefQualifier <&&> setPendingRefQualifier 0 <&&>
      optional parseRequiresClause) <||> attempt (Forward.parseName <||> parseSpecialName) :
      Parser w Bool) (Config w room { s.named s.nestLevel start length with
        pendingRefQualifier := 0, parseDepth := s.parseDepth + 1,
        encodingLevel := s.encodingLevel + 1 } [] x.demangled steps) _ :=
    After.or (.attempt (.seq hname <| .seq hclause <| .seq htypes <| .seq hqualifier <|
      .seq rfl ⟨m₅, hclause', h₅⟩))
  obtain ⟨m₆, hencoding, h₆⟩ : After (parseEncoding : Parser w Bool) (Config w room
      { s.named s.nestLevel start length with pendingRefQualifier := 0 } [] x.demangled steps) m :=
    h.guardDepth (by omega) rfl (h.deeper.guardLevel .encoding hlevel rfl hbody)
  exact ⟨m₆, hencoding, start, length, h₆⟩

/-! ### The round trip -/

theorem zero_notMem_decimal (n : ℕ) : 0 ∉ decimal n := fun hmem =>
  absurd (isDigit_of_mem_decimal hmem) (by decide)

theorem Identifier.zero_notMem (name : Identifier) : 0 ∉ name.text := fun hmem =>
  absurd (name.others 0 hmem) (by decide)

theorem Component.zero_notMem_mangled (c : Component) : 0 ∉ c.mangled := by
  have hletters : 0 ∉ builtinLetters := by decide +kernel
  have hargs : 0 ∉ c.mangledArgs := by
    rw [mangledArgs]
    split
    · exact List.not_mem_nil
    · simp only [List.cons_append, List.mem_cons, List.mem_append, not_or]
      exact ⟨by decide, fun hmem => hletters (c.builtin 0 hmem), by decide, List.not_mem_nil⟩
  simp only [mangled, mangledName, List.mem_append, not_or]
  exact ⟨⟨zero_notMem_decimal _, c.name.zero_notMem⟩, hargs⟩

theorem Component.zero_notMem_demangled (c : Component) : 0 ∉ c.demangled := by
  rw [demangled, List.mem_append, not_or]
  refine ⟨c.name.zero_notMem, ?_⟩
  rw [demangledArgs]
  split
  · exact List.not_mem_nil
  · decide

theorem Special.zero_notMem_mangled (special : Special) : 0 ∉ special.mangled := by
  cases special <;> decide

theorem Special.zero_notMem_demangled (last : Identifier) (special : Special) :
    0 ∉ special.demangled last := by
  rw [demangled, List.mem_append, not_or]
  exact ⟨by cases special <;> decide, last.zero_notMem⟩

namespace NestedName

variable (x : NestedName)

theorem zero_notMem_mangled : 0 ∉ x.mangled := by
  simp only [mangled, mangledPrefix, List.mem_append, List.mem_flatMap, not_or, not_exists, not_and]
  exact ⟨⟨by decide, fun c _ => c.zero_notMem_mangled,
    fun special _ => special.zero_notMem_mangled⟩, by decide⟩

theorem zero_notMem_demangled : 0 ∉ x.demangled := by
  rw [demangled, joined_eq, laterText, laterParts]
  simp only [List.mem_append, List.mem_flatMap, List.mem_map, not_or, not_exists, not_and]
  refine ⟨⟨x.first.zero_notMem_demangled, fun part hpart => ⟨by decide, ?_⟩⟩, by decide⟩
  rcases hpart with ⟨c, _, rfl⟩ | ⟨special, _, rfl⟩
  · exact c.zero_notMem_demangled
  · exact special.zero_notMem_demangled _

theorem mangled_eq : x.mangled =
    bytes "_Z" ++ 'N'.toUInt8 :: (x.mangledPrefix ++ bytes "Ev") := by
  have htokens : bytes "_ZN" = bytes "_Z" ++ ['N'.toUInt8] := by decide
  rw [mangled, htokens, List.append_assoc, List.append_assoc, List.singleton_append]

/-- The mangled name in memory. -/
def source : CString := ⟨x.mangled, x.zero_notMem_mangled⟩

end NestedName

theorem config_initMachine (w : CString) {out : List Byte} (h : 0 < out.length) :
    Config w out.length initState w.text [] kMaxParseSteps (initMachine out) := by
  refine ⟨⟨rfl, rfl, Nat.zero_le _, length_initMachine out, fun i b hb => ?_, Nat.le_refl _⟩, ?_⟩
  · cases hb
  · exact List.getElem?_set_self (by rwa [List.length_map])

/-- What has been printed, and its terminator, are in the caller's buffer. -/
theorem Config.prefix_outBytes (h : Config w room s input output steps m) :
    output ++ [0] <+: outBytes m := by
  rw [List.prefix_iff_getElem?]
  intro i hi
  rw [outBytes, List.getElem?_map]
  rw [List.length_append, List.length_singleton] at hi
  rcases Nat.lt_succ_iff_lt_or_eq.mp hi with hlt | rfl
  · rw [List.getElem_append_left hlt, h.written i _ (List.getElem?_eq_getElem hlt)]
    rfl
  · rw [List.getElem_concat_length rfl, h.terminator]
    rfl

/-- **Round trip**: the mangled name of a function in nested scopes is read back, in any buffer that
is large enough. -/
theorem demangle_mangled (x : NestedName) (out : List Byte)
    (hroom : x.demangled.length < out.length) :
    ∃ m, demangle x.source out = .ok (true, m) ∧ x.demangled ++ [0] <+: outBytes m := by
  let _ : Forward x.source := forwardAt x.source parseFuel
  have hpos : 0 < out.length := Nat.zero_lt_of_lt hroom
  have hin : Inside { initState with nestLevel := 0, parseDepth := 4 } 0 :=
    ⟨rfl, rfl, rfl, rfl, by decide, by decide, by decide⟩
  have hinit : Config x.source out.length initState x.mangled [] kMaxParseSteps (initMachine out) :=
    config_initMachine x.source hpos
  rw [x.mangled_eq] at hinit
  obtain ⟨m₁, hZ, h₁⟩ := hinit.twoCharToken "_Z" rfl
  have hargs := x.args_le
  have hsteps : 9 + (7 * x.args + 0) ≤ kMaxParseSteps := by
    rw [show kMaxParseSteps = 131072 from rfl]
    omega
  obtain ⟨m₂, hencoding, start, length, h₂⟩ :=
    (h₁.mono hsteps).encoding 57 x hin (by decide) hroom
  have hnul : ((0 : Byte) == 0) = true := rfl
  have htop : parseTopLevelMangledName (w := x.source) (initMachine out) = .ok (true, m₂) := by
    refine Backtracking.Parser.and_eq_true_iff.mpr ⟨m₂, ?_, ?_⟩
    · exact Backtracking.Parser.and_eq_true_iff.mpr ⟨m₁, hZ, hencoding⟩
    · refine (bind_ok (peek_run 0 h₂.cursor)).trans ?_
      rw [Nat.add_zero, h₂.byteAt, List.headD_nil, if_pos hnul]
      rfl
  refine ⟨m₂, ?_, h₂.prefix_outBytes⟩
  rw [demangle, if_neg (Nat.ne_of_gt hpos), bind_ok htop, if_pos rfl, saving_run, h₂.overflowed]
  rfl

/-- The round trip at a constructor of a class in a template. -/
theorem demangle_mangled_constructor : ∃ x : NestedName,
    x.mangled = bytes "_ZN1AIiE2BBC1Ev" ∧ x.demangled = bytes "A<>::BB::BB()" ∧
      x.demangled.length < 20 ∧ ∃ m, demangle x.source (List.replicate 20 1) = .ok (true, m) ∧
        x.demangled ++ [0] <+: outBytes m := by
  let A : Identifier :=
    ⟨bytes "A", by decide +kernel, by decide +kernel, by decide +kernel, by decide +kernel⟩
  let BB : Identifier :=
    ⟨bytes "BB", by decide +kernel, by decide +kernel, by decide +kernel, by decide +kernel⟩
  let x : NestedName := ⟨⟨A, bytes "i", by decide +kernel⟩, [⟨BB, [], by decide +kernel⟩],
    some .constructor, by decide +kernel, by decide +kernel⟩
  exact ⟨x, by decide +kernel, by decide +kernel, by decide +kernel,
    demangle_mangled x (List.replicate 20 1) (by decide +kernel)⟩

end Demangle

end NgLog
