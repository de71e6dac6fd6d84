import NgLog.Demangle.Progress
import NgLog.Demangle.Restoring

/-!
# Where a parse function strands

Seven of the parse functions take a part of their input and can then fail without putting it back:
the prefixes of a mangled name, of an initializer and of an ABI tag, the sign of a number that is
wanted, and the elements of a sequence that breaks off. `Strands` describes what has to stand at
the cursor for that, in terms of the tokens and of the functions called behind them; everywhere
else, and for every other function, a failing call leaves the state as it was.

## Main definitions

* `ParseFunction`, `runFunction` — the parse functions of the source, with their arguments
* `Strands` — the function takes a prefix here and fails on what follows it

## Main results

* `restoresAt_iff` — a function restores the state exactly where it does not strand
* `parseMangledName_strands` — the convention does not hold of every function
-/

namespace NgLog

namespace Demangle

open Backtracking (Machine Frame)
open Backtracking.Parser (Restores RestoresAt NeverFails Refuses After Breaks)

variable {w : CString}

/-! ### The parse functions of the source -/

/-- The parse functions that take a `State*`, with their other arguments. -/
inductive ParseFunction
  | parseOneCharToken (oneCharToken : Char) (h : oneCharToken.toUInt8 ≠ 0)
  | parseTwoCharToken (twoCharToken : String) (h : (bytes twoCharToken).length = 2)
  | parseCharClass (charClass : String)
  | parseMangledName
  | parseEncoding
  | parseName
  | parseUnscopedName
  | parseUnscopedTemplateName
  | parseNestedName
  | parsePrefix
  | parseUnqualifiedName
  | parseSourceName
  | parseUnnamedTypeName
  | parseStructuredBindingName
  | parseLocalSourceName
  | parseNumber (numberOut : Bool)
  | parseNonNegativeNumber (numberOut : Bool)
  | parsePositiveNumber (numberOut : Bool)
  | parseFloatNumber
  | parseSeqId
  | parseIdentifier (length : ℤ)
  | parseAbiTags
  | parseAbiTag
  | parseOperatorName
  | parseOperatorNameWithArity (arity : OperatorArity)
  | parseSpecialName
  | parseCallOffset
  | parseNVOffset
  | parseVOffset
  | parseCtorDtorName
  | parseType
  | parseCVQualifiers
  | parseBuiltinType
  | parseFunctionType
  | parseExceptionSpec
  | parseBareFunctionType
  | parseRequiresClause
  | parseClassEnumType
  | parseArrayType
  | parsePointerToMemberType
  | parseTemplateParam
  | parseTemplateTemplateParam
  | parseTemplateArgs
  | parseTemplateArg
  | parseFunctionParam
  | parseSimpleId
  | parseUnresolvedType
  | parseBaseUnresolvedName
  | parseUnresolvedName
  | parseBracedExpression
  | parseExpressionSequence (terminator : Char) (requireOne : Bool)
  | parseBracedExpressionSequence
  | parseRequiresExpression
  | parseExpression
  | parseInitializer
  | parseExprPrimary
  | parseLocalName
  | parseDiscriminator
  | parseSubstitution
  | parseTopLevelMangledName

section Functions

variable [Forward w]

/-- The call of a parse function; a number that is not there is a failure. -/
def runFunction : ParseFunction → Parser w Bool
  | .parseOneCharToken oneCharToken h => parseOneCharToken oneCharToken h
  | .parseTwoCharToken twoCharToken h => parseTwoCharToken twoCharToken h
  | .parseCharClass charClass => parseCharClass charClass
  | .parseMangledName => parseMangledName
  | .parseEncoding => parseEncoding
  | .parseName => parseName
  | .parseUnscopedName => parseUnscopedName
  | .parseUnscopedTemplateName => parseUnscopedTemplateName
  | .parseNestedName => parseNestedName
  | .parsePrefix => parsePrefix
  | .parseUnqualifiedName => parseUnqualifiedName
  | .parseSourceName => parseSourceName
  | .parseUnnamedTypeName => parseUnnamedTypeName
  | .parseStructuredBindingName => parseStructuredBindingName
  | .parseLocalSourceName => parseLocalSourceName
  | .parseNumber numberOut => succeeds (parseNumber numberOut)
  | .parseNonNegativeNumber numberOut => succeeds (parseNonNegativeNumber numberOut)
  | .parsePositiveNumber numberOut => succeeds (parsePositiveNumber numberOut)
  | .parseFloatNumber => parseFloatNumber
  | .parseSeqId => parseSeqId
  | .parseIdentifier length => parseIdentifier length
  | .parseAbiTags => parseAbiTags
  | .parseAbiTag => parseAbiTag
  | .parseOperatorName => parseOperatorName
  | .parseOperatorNameWithArity arity => parseOperatorNameWithArity arity
  | .parseSpecialName => parseSpecialName
  | .parseCallOffset => parseCallOffset
  | .parseNVOffset => parseNVOffset
  | .parseVOffset => parseVOffset
  | .parseCtorDtorName => parseCtorDtorName
  | .parseType => parseType
  | .parseCVQualifiers => parseCVQualifiers
  | .parseBuiltinType => parseBuiltinType
  | .parseFunctionType => parseFunctionType
  | .parseExceptionSpec => parseExceptionSpec
  | .parseBareFunctionType => parseBareFunctionType
  | .parseRequiresClause => parseRequiresClause
  | .parseClassEnumType => parseClassEnumType
  | .parseArrayType => parseArrayType
  | .parsePointerToMemberType => parsePointerToMemberType
  | .parseTemplateParam => parseTemplateParam
  | .parseTemplateTemplateParam => parseTemplateTemplateParam
  | .parseTemplateArgs => parseTemplateArgs
  | .parseTemplateArg => parseTemplateArg
  | .parseFunctionParam => parseFunctionParam
  | .parseSimpleId => parseSimpleId
  | .parseUnresolvedType => parseUnresolvedType
  | .parseBaseUnresolvedName => parseBaseUnresolvedName
  | .parseUnresolvedName => parseUnresolvedName
  | .parseBracedExpression => parseBracedExpression
  | .parseExpressionSequence terminator requireOne =>
    parseExpressionSequence terminator requireOne
  | .parseBracedExpressionSequence => parseBracedExpressionSequence
  | .parseRequiresExpression => parseRequiresExpression
  | .parseExpression => parseExpression
  | .parseInitializer => parseInitializer
  | .parseExprPrimary => parseExprPrimary
  | .parseLocalName => parseLocalName
  | .parseDiscriminator => parseDiscriminator
  | .parseSubstitution => parseSubstitution
  | .parseTopLevelMangledName => parseTopLevelMangledName

/-- The test of the loops up to a stop. -/
def atStop (stops : List Byte) : Parser w Bool := do return stops.contains (← peek 0)

/-- Zero or more `f` follow, and then neither one of the stops nor another `f`. -/
def BreaksOff (stops : List Byte) (f : Parser w Bool) (m : Machine State Store) : Prop :=
  ∃ m', Breaks (atStop (w := w) stops) f m m'

/-- An `f` follows, and then the sequence breaks off. -/
def BreaksOffAfterOne (stops : List Byte) (f : Parser w Bool) (m : Machine State Store) : Prop :=
  w.byteAt m.state.mangledCur ∉ stops ∧ After f (BreaksOff stops f) m

/-- The cursor is neither at the end nor at a version or a function-clone suffix. -/
def WrongSuffix (w : CString) (m : Machine State Store) : Prop :=
  let c := w.byteAt m.state.mangledCur
  c ≠ 0 ∧ c ≠ '@'.toUInt8 ∧ ¬(c = '.'.toUInt8 ∧ w.byteAt (m.state.mangledCur + 1) ≠ 0)

/-- The token stands at the cursor, and `P` holds of the machine behind it. -/
def Behind (w : CString) (token : String) (P : Machine State Store → Prop)
    (m : Machine State Store) : Prop :=
  bytes token <+: rest w m.state ∧ P (moved m (bytes token).length)

/-- The function takes a part of what stands at the cursor, and fails on what follows it without
putting that part back. -/
def Strands : ParseFunction → Machine State Store → Prop
  | .parseMangledName => Behind w "_Z" (Refuses (Forward.parseEncoding : Parser w Bool))
  | .parseNumber true => Behind w "n" fun m => isDigit (w.byteAt m.state.mangledCur) = false
  | .parseAbiTag => Behind w "B" (Refuses (parseSourceName : Parser w Bool))
  | .parseExpressionSequence terminator _ =>
    BreaksOffAfterOne [terminator.toUInt8] (Forward.parseExpression : Parser w Bool)
  | .parseBracedExpressionSequence =>
    BreaksOffAfterOne ['E'.toUInt8] (Forward.parseBracedExpression : Parser w Bool)
  | .parseInitializer =>
    Behind w "pi" (BreaksOff ['E'.toUInt8] (Forward.parseExpression : Parser w Bool))
  | .parseTopLevelMangledName =>
    Behind w "_Z" fun m =>
      Refuses (Forward.parseEncoding : Parser w Bool) m ∨
        After (Forward.parseEncoding : Parser w Bool) (WrongSuffix w) m
  | _ => fun _ => False

end Functions

/-! ### Where the others strand -/

section Stranding

variable {n : ℕ} {m m' : Machine State Store}

theorem atStop_run (stops : List Byte) (hm : m.state.mangledCur ≤ w.length) :
    atStop (w := w) stops m = .ok (stops.contains (w.byteAt m.state.mangledCur), m) := by
  rw [atStop, bind_ok (peek_run 0 hm), Nat.add_zero, pure_run]

/-- Progress is a cursor that has moved, so the state has changed. -/
theorem state_ne_of_progress (h : (forward w).progress m m') : m'.state ≠ m.state := by
  intro heq
  have hlt : m.state.mangledCur < m'.state.mangledCur := h
  rw [heq] at hlt
  exact Nat.lt_irrefl _ hlt

/-- A two-character token is taken where its bytes stand. -/
theorem after_twoCharToken_iff {token : String} {h : (bytes token).length = 2}
    {P : Machine State Store → Prop} (hm : m.state.mangledCur ≤ w.length) :
    After (parseTwoCharToken token h : Parser w Bool) P m ↔ Behind w token P m := by
  show (∃ m', parseTwoCharToken (w := w) token h m = .ok (true, m') ∧ P m') ↔ _
  rw [Behind, h, ← List.isPrefixOf_iff_prefix, parseTwoCharToken_run token h hm]
  split
  · rename_i htoken
    simp [htoken]
  · rename_i htoken
    simp [htoken]

/-- A byte that is not NUL stands at the cursor exactly when the rest of the name starts with it. -/
theorem singleton_prefix_rest_iff {c : Byte} (h : c ≠ 0) :
    [c] <+: rest w m.state ↔ w.byteAt m.state.mangledCur = c := by
  rw [← headD_rest]
  rcases rest w m.state with _ | ⟨b, p⟩
  · simp [h.symm]
  · simp [eq_comm]

/-- A one-character token is taken where its byte stands. -/
theorem after_oneCharToken_iff {c : Char} {h : c.toUInt8 ≠ 0} {token : String}
    (htoken : bytes token = [c.toUInt8]) {P : Machine State Store → Prop}
    (hm : m.state.mangledCur ≤ w.length) :
    After (parseOneCharToken c h : Parser w Bool) P m ↔ Behind w token P m := by
  show (∃ m', parseOneCharToken (w := w) c h m = .ok (true, m') ∧ P m') ↔ _
  rw [Behind, htoken, singleton_prefix_rest_iff h, parseOneCharToken_run c h hm]
  split
  · rename_i hc
    simp [hc]
  · rename_i hc
    simp [hc]

/-- A token before the rest of a function. -/
theorem restoresAt_after {f g : Parser w Bool} [hf : Built n true f] [hr : Restores f]
    [hg : Built n false g] (hm : m.state.mangledCur ≤ w.length) :
    RestoresAt (f <&&> g : Parser w Bool) m ↔ ¬After f (Refuses g) m :=
  Frame.restoresAt_and_iff hf.runs_forward hr hg.runs_forward state_ne_of_progress hm

/-- Only the machines whose cursor is in the name matter behind a function that succeeds. -/
theorem after_congr {f : Parser w Bool} {s : Bool} [hf : Built n s f]
    {P Q : Machine State Store → Prop} (h : ∀ m', m'.state.mangledCur ≤ w.length → (P m' ↔ Q m'))
    (hm : m.state.mangledCur ≤ w.length) : After f P m ↔ After f Q m := by
  constructor
  · rintro ⟨m', hrun, hP⟩
    have hpost := hf.runs_forward.post hm hrun
    exact ⟨m', hrun, (h m' ((forward w).inv_of_rel hm hpost.1)).mp hP⟩
  · rintro ⟨m', hrun, hQ⟩
    have hpost := hf.runs_forward.post hm hrun
    exact ⟨m', hrun, (h m' ((forward w).inv_of_rel hm hpost.1)).mpr hQ⟩

theorem runs_atStop (stops : List Byte) : (forward w).Runs false (atStop (w := w) stops) :=
  forward_scan ((scans_stop stops).mono fun _ _ _ hs => absurd hs Bool.false_ne_true)

/-- When a loop over a terminator fails. -/
theorem parseUntil_eq_false_iff {stops : List Byte} {least : Bool} {f : Parser w Bool}
    [hf : Built n true f] (hm : m.state.mangledCur ≤ w.length) :
    parseUntil stops least f m = .ok (false, m') ↔
      Breaks (atStop (w := w) stops) f m m' ∨
        least = true ∧ atStop (w := w) stops m = .ok (true, m') :=
  Frame.repeatUntil_eq_false_iff (runs_atStop stops) hf.runs_forward
    (fun _ _ _ hrel => Nat.sub_le_sub_left hrel.1 _)
    (fun _ _ _ hrel hlt => Nat.sub_lt_sub_left (Nat.lt_of_lt_of_le hlt hrel.2) hlt) hm

/-- A sequence up to a terminator restores the state unless it has parsed an element before it
breaks off: the elements themselves restore it. -/
theorem restoresAt_parseUntil {stops : List Byte} {least : Bool} {f : Parser w Bool}
    [hf : Built n true f] [hr : Restores f] (hm : m.state.mangledCur ≤ w.length) :
    RestoresAt (parseUntil stops least f) m ↔ ¬BreaksOffAfterOne stops f m := by
  have hstop := atStop_run (w := w) stops hm
  constructor
  · rintro h ⟨hnot, m₁, hfirst, m', hbreaks⟩
    have hcontains : stops.contains (w.byteAt m.state.mangledCur) = false := by
      simpa using hnot
    rw [hcontains] at hstop
    have hrun : parseUntil stops least f m = .ok (false, m') :=
      (parseUntil_eq_false_iff (n := n) hm).mpr (.inl (.later hstop hfirst hbreaks))
    have hpost := hf.runs_forward.post hm hfirst
    have hrel := Frame.rel_of_breaks (runs_atStop stops) hf.runs_forward hbreaks
      ((forward w).inv_of_rel hm hpost.1)
    exact state_ne_of_progress ((forward w).progress_of_rel (hpost.2 rfl rfl) hrel) (h m' hrun)
  · intro h m' hrun
    rcases (parseUntil_eq_false_iff (n := n) hm).mp hrun with hbreaks | ⟨-, hstopped⟩
    · cases hbreaks with
      | now hnot hfail =>
        rw [hstop, Except.ok.injEq, Prod.mk.injEq] at hnot
        obtain ⟨-, rfl⟩ := hnot
        exact hr.restoresAt m m' hfail
      | later hnot hfirst hrest =>
        rw [hstop, Except.ok.injEq, Prod.mk.injEq] at hnot
        obtain ⟨hcontains, rfl⟩ := hnot
        exact absurd ⟨by simpa using hcontains, _, hfirst, m', hrest⟩ h
    · rw [hstop, Except.ok.injEq, Prod.mk.injEq] at hstopped
      rw [hstopped.2]

/-- The loop over a terminator ends on it. -/
theorem atStop_eq_true {stops : List Byte} (h : atStop (w := w) stops m = .ok (true, m')) :
    m' = m ∧ m.state.mangledCur ≤ w.length ∧ w.byteAt m.state.mangledCur ∈ stops := by
  by_cases hcur : m.state.mangledCur ≤ w.length
  · rw [atStop_run stops hcur, Except.ok.injEq, Prod.mk.injEq] at h
    exact ⟨h.2.symm, hcur, by simpa using h.1⟩
  · have hpeek : peek (w := w) 0 m = .error .readPastEnd := if_neg hcur
    rw [atStop, bind_error hpeek] at h
    cases h

/-- Behind `pi`, only the sequence can fail: the terminator is there when it has ended. -/
theorem refuses_initializer_iff {f : Parser w Bool} [hf : Built n true f]
    (hm : m.state.mangledCur ≤ w.length) :
    Refuses (parseUntil ['E'.toUInt8] false f <&&> parseOneCharToken 'E' : Parser w Bool) m ↔
      BreaksOff ['E'.toUInt8] f m := by
  refine Backtracking.Parser.refuses_and_iff.trans ⟨?_, ?_⟩
  · rintro (⟨m', hrun⟩ | ⟨m₁, hrun, m', hfail⟩)
    · rcases (parseUntil_eq_false_iff (n := n) hm).mp hrun with hbreaks | ⟨hleast, -⟩
      · exact ⟨m', hbreaks⟩
      · cases hleast
    · obtain ⟨m₂, hstop⟩ := Backtracking.Parser.untilFuel_eq_true hrun
      obtain ⟨rfl, hcur, hmem⟩ := atStop_eq_true hstop
      have hbyte : w.byteAt m₁.state.mangledCur = 'E'.toUInt8 := List.mem_singleton.mp hmem
      rw [parseOneCharToken_run 'E' (by decide) hcur, if_pos hbyte] at hfail
      cases hfail
  · rintro ⟨m', hbreaks⟩
    exact .inl ⟨m', (parseUntil_eq_false_iff (n := n) hm).mpr (.inl hbreaks)⟩

/-- Behind a mangled name, the suffix fails exactly when it is the wrong one. -/
theorem refuses_parseSuffix_iff (hm : m.state.mangledCur ≤ w.length) :
    Refuses (parseSuffix : Parser w Bool) m ↔ WrongSuffix w m := by
  have hpeek := peek_run (w := w) 0 hm
  rw [Nat.add_zero] at hpeek
  show (∃ m', parseSuffix (w := w) m = .ok (false, m')) ↔ _
  rw [parseSuffix, bind_ok hpeek]
  simp only [WrongSuffix, beq_iff_eq]
  by_cases hend : w.byteAt m.state.mangledCur = 0
  · simp only [hend, if_true, pure_run]
    simp
  by_cases hversion : w.byteAt m.state.mangledCur = '@'.toUInt8
  · rw [if_neg hend, if_pos hversion]
    have hnever : NeverFails
        (maybeAppendWithLength (.bytes (rest w m.state)) : Parser w Bool) := inferInstance
    constructor
    · rintro ⟨m', h⟩
      exact absurd h (hnever.ne_false m m')
    · rintro ⟨-, hne, -⟩
      exact absurd hversion hne
  rw [if_neg hend, if_neg hversion, atCloneSuffix, bind_ok hpeek]
  by_cases hdot : w.byteAt m.state.mangledCur = '.'.toUInt8
  · have hnext := peek_run (w := w) 1 (lt_length_of_peek hend)
    have hnul : '.'.toUInt8 ≠ 0 := by decide
    have hat : '.'.toUInt8 ≠ '@'.toUInt8 := by decide
    rw [beq_iff_eq.mpr hdot, if_pos rfl, bind_ok hnext, pure_run]
    simp [hdot, hnul, hat]
  · rw [if_neg (by simpa using hdot), pure_run]
    simp [hend, hversion, hdot]

/-- A number that is wanted restores the state unless its sign is all there is. -/
theorem restoresAt_parseNumber (hm : m.state.mangledCur ≤ w.length) :
    RestoresAt (succeeds (parseNumber (w := w) true)) m ↔
      ¬Behind w "n" (fun m => isDigit (w.byteAt m.state.mangledCur) = false) m := by
  have hn : bytes "n" = ['n'.toUInt8] := rfl
  rw [← after_oneCharToken_iff (h := by decide) hn hm]
  constructor
  · rintro h ⟨m', hsign, hdigit⟩
    have hbuilt : Built 0 true (parseOneCharToken 'n' : Parser w Bool) := inferInstance
    have hpost := hbuilt.runs_forward.post hm hsign
    refine state_ne_of_progress (hpost.2 rfl rfl) (h m' ?_)
    exact succeeds_eq_false_iff.mpr (parseNumber_of_sign hsign hdigit)
  · intro h m' hrun
    rcases parseNumber_eq_none (succeeds_eq_false_iff.mp hrun) with hstate | ⟨-, hsign, hdigit⟩
    · exact hstate
    · exact absurd ⟨m', hsign, hdigit⟩ h

/-- The letter of a tag is lost unless a source name follows it. -/
theorem restoresAt_parseAbiTag (hm : m.state.mangledCur ≤ w.length) :
    RestoresAt (parseAbiTag : Parser w Bool) m ↔
      ¬Behind w "B" (Refuses (parseSourceName : Parser w Bool)) m :=
  (restoresAt_after (n := 0) hm).trans (not_congr (after_oneCharToken_iff rfl hm))

variable [Forward w]

theorem restoresAt_parseMangledName [ForwardBuilt n w] (hm : m.state.mangledCur ≤ w.length) :
    RestoresAt (parseMangledName : Parser w Bool) m ↔
      ¬Behind w "_Z" (Refuses (Forward.parseEncoding : Parser w Bool)) m :=
  (restoresAt_after (n := n) hm).trans (not_congr (after_twoCharToken_iff hm))

theorem restoresAt_parseInitializer [ForwardBuilt n w] (hm : m.state.mangledCur ≤ w.length) :
    RestoresAt (parseInitializer : Parser w Bool) m ↔
      ¬Behind w "pi" (BreaksOff ['E'.toUInt8] (Forward.parseExpression : Parser w Bool)) m := by
  rw [← after_twoCharToken_iff (h := by decide) hm]
  refine (restoresAt_after (n := n) hm).trans (not_congr ?_)
  exact after_congr (n := n) (s := true) (fun _ hm' => refuses_initializer_iff (n := n) hm') hm

theorem restoresAt_parseTopLevelMangledName [ForwardBuilt n w]
    (hm : m.state.mangledCur ≤ w.length) :
    RestoresAt (parseTopLevelMangledName : Parser w Bool) m ↔
      ¬Behind w "_Z" (fun m => Refuses (Forward.parseEncoding : Parser w Bool) m ∨
        After (Forward.parseEncoding : Parser w Bool) (WrongSuffix w) m) m := by
  have hsplit : (parseTopLevelMangledName : Parser w Bool) =
      (parseTwoCharToken "_Z" <&&> (Forward.parseEncoding <&&> parseSuffix)) :=
    parseTopLevelMangledName_eq.trans (Backtracking.Parser.and_assoc _ _ _)
  have hsuffix : Built n false (parseSuffix (w := w)) := built_parseSuffix
  rw [hsplit, ← after_twoCharToken_iff (h := by decide) hm]
  refine (restoresAt_after (n := n) hm).trans (not_congr ?_)
  refine after_congr (n := n) (s := true) (fun m' hm' => ?_) hm
  -- behind the prefix either the encoding fails or the suffix behind it
  refine Backtracking.Parser.refuses_and_iff.trans (or_congr Iff.rfl ?_)
  exact after_congr (n := n) (s := true) (fun _ hm₂ => refuses_parseSuffix_iff hm₂) hm'

/-- One case for each function that takes a part of its input and can fail on the rest. -/
theorem restoresAt_runFunction [ForwardBuilt n w] [ForwardRestores w] (f : ParseFunction)
    (hm : m.state.mangledCur ≤ w.length) :
    RestoresAt (runFunction f : Parser w Bool) m ↔ ¬Strands (w := w) f m := by
  cases f with
  | parseMangledName => exact restoresAt_parseMangledName (n := n) hm
  | parseAbiTag => exact restoresAt_parseAbiTag hm
  | parseExpressionSequence terminator requireOne => exact restoresAt_parseUntil (n := n) hm
  | parseBracedExpressionSequence => exact restoresAt_parseUntil (n := n) hm
  | parseInitializer => exact restoresAt_parseInitializer (n := n) hm
  | parseTopLevelMangledName => exact restoresAt_parseTopLevelMangledName (n := n) hm
  | parseNumber numberOut =>
    cases numberOut with
    | true => exact restoresAt_parseNumber hm
    | false =>
      refine ⟨fun _ h => h, fun _ => ?_⟩
      exact Restores.restoresAt (f := succeeds (parseNumber false)) m
  | _ =>
    -- the others keep the convention
    refine ⟨fun _ h => h, fun _ => ?_⟩
    dsimp only [runFunction]
    exact Restores.restoresAt m

end Stranding

/-! ### Every machine -/

/-- At every machine whose cursor is in the mangled name, as it is throughout a run, a parse
function leaves the state as it was when it fails, exactly if it does not strand there. -/
theorem restoresAt_iff (w : CString) (n : ℕ) (f : ParseFunction) (m : Machine State Store)
    (hm : m.state.mangledCur ≤ w.length) :
    letI := forwardAt w n
    RestoresAt (runFunction f : Parser w Bool) m ↔ ¬Strands (w := w) f m := by
  let _ := forwardAt w n
  have _ := forwardBuilt_forwardAt w n
  have _ := restores_forwardAt w n
  exact restoresAt_runFunction (n := n) f hm

/-- The convention at the state that `Demangle` starts from. -/
theorem restoresAt_iff_start : (initMachine [0]).state.mangledCur ≤ (CString.ofString "_Z").length ∧
    (RestoresAt (@runFunction (.ofString "_Z") (forwardAt _ parseFuel) .parseMangledName)
        (initMachine [0]) ↔
      ¬@Strands (.ofString "_Z") (forwardAt _ parseFuel) .parseMangledName (initMachine [0])) :=
  have hm := Nat.zero_le _
  ⟨hm, restoresAt_iff _ parseFuel .parseMangledName (initMachine [0]) hm⟩

/-- Whether a run fails with a machine that passes `p`. -/
def failsWith (r : Except Fault (Bool × Machine State Store)) (p : Machine State Store → Bool) :
    Bool :=
  match r with
  | .ok (false, m) => p m
  | _ => false

theorem exists_of_failsWith {r : Except Fault (Bool × Machine State Store)}
    {p : Machine State Store → Bool} (h : failsWith r p = true) :
    ∃ m, r = .ok (false, m) ∧ p m = true := by
  rcases r with e | ⟨_ | _, m⟩
  · cases h
  · exact ⟨m, rfl, h⟩
  · cases h

set_option maxRecDepth 10000 in
/-- The convention does not hold of every function: on `_Z`, the first call of a run takes both
bytes, fails, and leaves the cursor behind them. -/
theorem parseMangledName_strands : ¬∀ (w : CString) (n : ℕ) (f : ParseFunction)
    (m : Machine State Store), m.state.mangledCur ≤ w.length →
      letI := forwardAt w n
      RestoresAt (runFunction f : Parser w Bool) m := by
  intro h
  have hrestores := h (.ofString "_Z") parseFuel .parseMangledName (initMachine [0])
    (Nat.zero_le _)
  obtain ⟨m', hrun, hp⟩ := exists_of_failsWith
    (r := @runFunction (.ofString "_Z") (forwardAt _ parseFuel) .parseMangledName (initMachine [0]))
    (p := fun m => m.state.mangledCur == 2) (by decide +kernel)
  have hcur := congrArg State.mangledCur (hrestores m' hrun)
  rw [beq_iff_eq.mp hp] at hcur
  cases hcur

set_option maxRecDepth 10000 in
/-- What a stranded prefix can do: the second tag of `_Z1fB3abcBv` has no name, but the loop over
the tags has taken its letter when it stops, and the name is accepted. -/
example : succeedsWith (demangle (.ofString "_Z1fB3abcBv") [0, 0, 0, 0])
    (fun m => outBytes m == bytes "f()" ++ [0]) = true := by decide +kernel

end Demangle

end NgLog
