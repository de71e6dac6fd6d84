import NgLog.Demangle.Scanning

/-!
# The parse functions are built from a few primitives

Every parse function of the grammar is put together from the same parts: scans; changes of the
control fields; four ways to write output; and the combinators. `Built fuel strict f` says so for
`f`: with at most `fuel` nested depth guards, and consuming input whenever it succeeds if `strict`.
A property of parse functions that holds of the primitives and that the combinators keep holds of
every parse function, by induction on `Built`; this is how the safety of the parser and the content
of its output are proved, once for all of them.

`Built` is a class, so that instance resolution follows the grammar: the instance for a parse
function is found by unfolding its definition.

## Main definitions

* `Control` — a change of the fields that only steer the output
* `Built` — the closure
* `ForwardBuilt` — the recursive parse functions are built

## Main results

* `forwardBuilt_forwardAt` — they are, at every fuel
* `built_parseTopLevelMangledName`
-/

namespace NgLog

namespace Demangle

open Backtracking (Machine)

variable {w : CString} {α : Type}

/-- `g` changes the fields that steer the output and no others. -/
def Control (g : State → State) : Prop :=
  ∀ state, ∃ nestLevel append skipSeparator pendingRefQualifier,
    g state = { state with
      nestLevel := nestLevel
      append := append
      skipSeparator := skipSeparator
      pendingRefQualifier := pendingRefQualifier }

/-- The closure of the primitives under the combinators. The fuel counts nested depth guards; a
strict function consumes input when it succeeds. -/
class inductive Built {w : CString} : ℕ → Bool → Parser w Bool → Prop
  | fail {n s} : Built n s (pure false)
  | succeed {n} : Built n false (pure true)
  | scan {n s f} (hf : Scans f fun b k => s = true → b = true → 0 < k) : Built n s f
  | control {n g} (hg : Control g) : Built n false (modify g)
  | text {n t} (ht : 0 ∉ t) : Built n false (maybeAppendWithLength (.bytes t))
  | identifier {n s length} (hs : s = true → 0 < length) : Built n s (parseIdentifier length)
  | accept {n s α} {found : Parser w (Option α)} {length texts}
      (hf : Finds found length texts) : Built n s (acceptAbbrev found length texts)
  | prevName {n lead} (hlead : ∀ t ∈ lead, 0 ∉ bytes t) : Built n false (appendPrevName lead)
  | separated {n f} (hf : Built n true f) : Built n true (separated f)
  | and_left {n f g} (hf : Built n true f) (hg : Built n false g) : Built n true (f <&&> g)
  | and_right {n s f g} (hf : Built n false f) (hg : Built n s g) : Built n s (f <&&> g)
  | or {n s f g} (hf : Built n s f) (hg : Built n s g) : Built n s (f <||> g)
  | attempt {n s f} (hf : Built n s f) : Built n s (attempt f)
  | attemptTwice {n s c f g} (hc : Built n s c) (hf : Built n false f) (hg : Built n s g) :
      Built n s (attemptTwice c f g)
  | branch {n s c f g} (hc : Built n false c) (hf : Built n s f) (hg : Built n s g) :
      Built n s (branch c f g)
  | optional {n f} (hf : Built n false f) : Built n false (optional f)
  | zeroOrMore {n f} (hf : Built n true f) : Built n false (zeroOrMore f)
  | parseUntil {n stops least f} (hf : Built n true f) : Built n false (parseUntil stops least f)
  | saving {n s k} (hk : ∀ state, Built n s (k state)) : Built n s (saving k)
  | scanBind {n s α} {f : Parser w α} {post k} (hf : Scans f post)
      (hk : ∀ a i, post a i → Built n s (k a)) : Built n s (f >>= k)
  | guardLevel {n s level f} (hlevel : level ≠ .depth) (hf : Built n s f) :
      Built n s (guardLevel level f)
  | guardDepth {n s f} (hf : Built n s f) : Built (n + 1) s (guardDepth f)
  | exhausted {s} : Built 0 s (fault .outOfFuel)
  | weaken {n f} (hf : Built n true f) : Built n false f

/-! ### Instances -/

section Instances

variable {n : ℕ} {s : Bool} {c f g : Parser w Bool}

attribute [instance] Built.fail Built.succeed Built.exhausted

instance instBuiltFalse [hf : Built n true f] : Built n false f := .weaken hf

instance instBuiltAndLeft [hf : Built n true f] [hg : Built n false g] :
    Built n true (f <&&> g) := .and_left hf hg

instance instBuiltAndRight [hf : Built n false f] [hg : Built n s g] :
    Built n s (f <&&> g) := .and_right hf hg

instance instBuiltOr [hf : Built n s f] [hg : Built n s g] : Built n s (f <||> g) := .or hf hg

instance instBuiltAttempt [hf : Built n s f] : Built n s (attempt f) := .attempt hf

instance instBuiltAttemptTwice [hc : Built n s c] [hf : Built n false f] [hg : Built n s g] :
    Built n s (attemptTwice c f g) := .attemptTwice hc hf hg

instance instBuiltBranch [hc : Built n false c] [hf : Built n s f] [hg : Built n s g] :
    Built n s (branch c f g) := .branch hc hf hg

instance instBuiltOptional [hf : Built n false f] : Built n false (optional f) := .optional hf

instance instBuiltZeroOrMore [hf : Built n true f] : Built n false (zeroOrMore f) :=
  .zeroOrMore hf

instance instBuiltOneOrMore [hf : Built n true f] : Built n true (oneOrMore f) :=
  .and_left hf (.zeroOrMore hf)

instance instBuiltParseUntil {stops : List Byte} {least : Bool} [hf : Built n true f] :
    Built n false (parseUntil stops least f) := .parseUntil hf

instance instBuiltSaving {k : State → Parser w Bool} [hk : ∀ state, Built n s (k state)] :
    Built n s (saving k) := .saving hk

instance instBuiltSeparated [hf : Built n true f] : Built n true (separated f) := .separated hf

instance instBuiltIte {p : Prop} [Decidable p] [hf : Built n s f] [hg : Built n s g] :
    Built n s (if p then f else g) := by
  split <;> assumption

instance instBuiltGuardType [hf : Built n s f] : Built n s (guardLevel .type f) :=
  .guardLevel (by decide) hf

instance instBuiltGuardEncoding [hf : Built n s f] : Built n s (guardLevel .encoding f) :=
  .guardLevel (by decide) hf

instance instBuiltGuardLocalName [hf : Built n s f] : Built n s (guardLevel .localName f) :=
  .guardLevel (by decide) hf

instance instBuiltGuardTemplateArg [hf : Built n s f] : Built n s (guardLevel .templateArg f) :=
  .guardLevel (by decide) hf

instance instBuiltGuardExpression [hf : Built n s f] : Built n s (guardLevel .expression f) :=
  .guardLevel (by decide) hf

instance instBuiltGuardDepth [hf : Built n s f] : Built (n + 1) s (guardDepth f) := .guardDepth hf

/-! ### The primitives -/

/-- A strict scan, at either strictness. -/
theorem Accepts.built (hf : Accepts f) : Built n s f := .scan (hf.mono fun _ _ h _ => h)

/-- A scan, at no strictness. -/
theorem Scans.built {post : Bool → ℕ → Prop} (hf : Scans f post) : Built n false f :=
  .scan (hf.mono fun _ _ _ h => absurd h Bool.false_ne_true)

instance (b : Bool) : Built n false (pure b : Parser w Bool) := (scans_pure b).built

instance (p : State → Bool) : Built n false (saving fun state => pure (p state)
    : Parser w Bool) := (accepts_saving_pure p).built

instance (t : Char) (h : t.toUInt8 ≠ 0) : Built n s (parseOneCharToken (w := w) t h) :=
  (accepts_parseOneCharToken t h).built

instance (t : String) (h : (bytes t).length = 2) :
    Built n s (parseTwoCharToken (w := w) t h) := (accepts_parseTwoCharToken t h).built

instance (t : String) : Built n s (parseCharClass (w := w) t) :=
  (accepts_parseCharClass t).built

instance (numberOut : Bool) : Built n s (succeeds (parseNumber (w := w) numberOut)) :=
  (accepts_succeeds (yields_parseNumber numberOut)).built

instance : Built n s (succeeds (parsePositiveNumber (w := w) false)) :=
  (accepts_succeeds ((scans_parsePositiveNumber false).mono fun _ _ h => h.1)).built

instance : Built n s (skipNonNegativeNumber (w := w)) :=
  accepts_skipNonNegativeNumber.built

instance (cond : ℤ → Bool) : Built n s (parseNumberSuch (w := w) cond) :=
  (accepts_parseNumberSuch cond).built

instance : Built n s (parseFloatNumber (w := w)) := accepts_parseFloatNumber.built

instance : Built n s (parseSeqId (w := w)) := accepts_parseSeqId.built

instance : Built n s (parseCVQualifiers (w := w)) := accepts_parseCVQualifiers.built

instance (t : String) (h : 0 ∉ bytes t) : Built n false (maybeAppend (w := w) t h) :=
  .text h

instance : Built n false (disableAppend (w := w)) :=
  .control fun st => ⟨st.nestLevel, false, st.skipSeparator, st.pendingRefQualifier, rfl⟩

instance (value : Bool) : Built n false (restoreAppend (w := w) value) :=
  .control fun st => ⟨st.nestLevel, value, st.skipSeparator, st.pendingRefQualifier, rfl⟩

instance : Built n false (enterNestedName (w := w)) :=
  .control fun st => ⟨0, st.append, st.skipSeparator, st.pendingRefQualifier, rfl⟩

instance (value : Int16) : Built n false (leaveNestedName (w := w) value) :=
  .control fun st => ⟨value, st.append, st.skipSeparator, st.pendingRefQualifier, rfl⟩

instance (value : Byte) : Built n false (setPendingRefQualifier (w := w) value) :=
  .control fun st => ⟨st.nestLevel, st.append, st.skipSeparator, value, rfl⟩

instance (value : Bool) : Built n false
    (modify fun state => { state with skipSeparator := value } : Parser w Bool) :=
  .control fun st => ⟨st.nestLevel, st.append, value, st.pendingRefQualifier, rfl⟩

instance : Built n false (maybeIncreaseNestLevel (w := w)) :=
  .control fun st => by
    split
    · exact ⟨st.nestLevel + 1, st.append, st.skipSeparator, st.pendingRefQualifier, rfl⟩
    · exact ⟨st.nestLevel, st.append, st.skipSeparator, st.pendingRefQualifier, rfl⟩

instance : Built n false (maybeAppendSeparator (w := w)) := by
  unfold maybeAppendSeparator
  infer_instance

instance (count : ℕ) : Built n false (atLeastNumCharsRemaining (w := w) count) :=
  have hscan : Scans (atLeastNumCharsRemaining (w := w) count) fun _ _ => True :=
    fun _ hm => ⟨_, 0, rfl, hm, trivial⟩
  hscan.built

instance : Built n false (hasPrevName (w := w)) := by
  unfold hasPrevName
  infer_instance

instance : Built n false (appendPrevName (w := w) []) := .prevName nofun

instance : Built n false (appendPrevName (w := w) ["~"]) := .prevName (by decide)

instance (seconds : String) : Built n false (atTwoChars (w := w) 'U' seconds) :=
  (scans_atTwoChars 'U' seconds (by decide)).built

instance (seconds : String) : Built n false (atTwoChars (w := w) 'D' seconds) :=
  (scans_atTwoChars 'D' seconds (by decide)).built

instance {k : Byte → Parser w Bool} [hk : ∀ c, Built n s (k c)] :
    Built n s (parseRefQualifier >>= k) := .scanBind scans_parseRefQualifier fun c _ _ => hk c

/-! ### The functions that do not recurse -/

instance : Built n true (parseSourceName (w := w)) :=
  .attempt <| .scanBind (scans_parsePositiveNumber true) fun number _ h => by
    cases number with
    | none => exact .fail
    | some length =>
      have : Built n true (parseIdentifier (w := w) length) :=
        .identifier fun _ => h.2 rfl length rfl
      dsimp only
      infer_instance

instance : Built n true (parseDiscriminator (w := w)) := by
  unfold parseDiscriminator
  infer_instance

instance : Built n true (parseLocalSourceName (w := w)) := by
  unfold parseLocalSourceName
  infer_instance

instance : Built n true (parseAbiTag (w := w)) := by
  unfold parseAbiTag
  infer_instance

instance : Built n true (parseAbiTags (w := w)) := by
  unfold parseAbiTags
  infer_instance

instance : Built n true (parseVOffset (w := w)) := by
  unfold parseVOffset
  infer_instance

instance : Built n true (parseNVOffset (w := w)) := by
  unfold parseNVOffset
  infer_instance

instance : Built n true (parseCallOffset (w := w)) := by
  unfold parseCallOffset
  infer_instance

instance : Built n true (parseTemplateParam (w := w)) := by
  unfold parseTemplateParam
  infer_instance

instance : Built n true (acceptAbbrev (w := w) findSubstitution (fun _ => 1)
    substitutionTexts) := .accept finds_findSubstitution

instance : Built n true (acceptAbbrev (w := w) findOperator (fun _ => 2) operatorTexts) :=
  .accept finds_findOperator

instance : Built n true (acceptAbbrev (w := w) findBuiltinType
    (fun p => p.abbreviation.length) fun p => [p.realName]) := .accept finds_findBuiltinType

instance : Built n true (parseSubstitution (w := w)) := by
  unfold parseSubstitution
  infer_instance

instance : Built n true (parseTemplateTemplateParam (w := w)) := by
  unfold parseTemplateTemplateParam
  infer_instance

end Instances

/-! ### The recursion -/

/-- What `parseTopLevelMangledName` does behind the mangled name. -/
def parseSuffix : Parser w Bool := do
  let c ← peek 0
  if c == 0 then return true
  if c == '@'.toUInt8 then
    saving fun state => maybeAppendWithLength (.bytes (rest w state))
  else atCloneSuffix

theorem parseTopLevelMangledName_eq [Forward w] :
    (parseTopLevelMangledName : Parser w Bool) = (parseMangledName <&&> parseSuffix) := rfl

section Recursive

/-- The recursive parse functions are built. All but `parsePrefix` consume input. -/
class ForwardBuilt (n : ℕ) (w : CString) [Forward w] : Prop where
  parseEncoding : Built n true (Forward.parseEncoding (w := w))
  parseName : Built n true (Forward.parseName (w := w))
  parseNestedName : Built n true (Forward.parseNestedName (w := w))
  parsePrefix : Built n false (Forward.parsePrefix (w := w))
  parseType : Built n true (Forward.parseType (w := w))
  parseTemplateArg : Built n true (Forward.parseTemplateArg (w := w))
  parseBracedExpression : Built n true (Forward.parseBracedExpression (w := w))
  parseExpression : Built n true (Forward.parseExpression (w := w))
  parseLocalName : Built n true (Forward.parseLocalName (w := w))

attribute [instance] ForwardBuilt.parseEncoding ForwardBuilt.parseName
  ForwardBuilt.parseNestedName ForwardBuilt.parsePrefix ForwardBuilt.parseType
  ForwardBuilt.parseTemplateArg ForwardBuilt.parseBracedExpression ForwardBuilt.parseExpression
  ForwardBuilt.parseLocalName

variable {n : ℕ} [Forward w] [ForwardBuilt n w]

instance : Built n true (parseMangledName (w := w)) := by
  unfold parseMangledName
  infer_instance

instance : Built n true (parseOperatorName (w := w)) := by
  unfold parseOperatorName
  infer_instance

instance : Built n true (parseCtorDtorName (w := w)) := by
  unfold parseCtorDtorName
  infer_instance

instance : Built n true (parseUnnamedTypeName (w := w)) := by
  unfold parseUnnamedTypeName
  infer_instance

instance : Built n true (parseStructuredBindingName (w := w)) := by
  unfold parseStructuredBindingName
  infer_instance

instance : Built n true (parseUnqualifiedName (w := w)) := by
  unfold parseUnqualifiedName
  infer_instance

instance : Built n true (parseUnscopedName (w := w)) := by
  unfold parseUnscopedName
  infer_instance

instance : Built n true (parseUnscopedTemplateName (w := w)) := by
  unfold parseUnscopedTemplateName
  infer_instance

instance : Built n true (parseRequiresClause (w := w)) := by
  unfold parseRequiresClause
  infer_instance

instance : Built n true (parseTemplateArgs (w := w)) := by
  unfold parseTemplateArgs
  infer_instance

instance : Built n true (parseBareFunctionType (w := w)) := by
  unfold parseBareFunctionType
  infer_instance

instance : Built n true (parseExceptionSpec (w := w)) := by
  unfold parseExceptionSpec
  infer_instance

set_option synthInstance.maxSize 1024 in
instance : Built n true (parseSpecialName (w := w)) := by
  unfold parseSpecialName
  infer_instance

instance : Built n true (parseBuiltinType (w := w)) := by
  unfold parseBuiltinType
  infer_instance

instance : Built n true (parseFunctionType (w := w)) := by
  unfold parseFunctionType
  infer_instance

instance : Built n true (parseClassEnumType (w := w)) := by
  unfold parseClassEnumType
  infer_instance

instance : Built n true (parseArrayType (w := w)) := by
  unfold parseArrayType
  infer_instance

instance : Built n true (parsePointerToMemberType (w := w)) := by
  unfold parsePointerToMemberType
  infer_instance

set_option synthInstance.maxSize 1024 in
instance : Built (n + 1) true (parseType (w := w)) := by
  unfold parseType
  infer_instance

instance : Built n false (appendRefQualifier (w := w)) := by
  unfold appendRefQualifier
  infer_instance

instance : Built (n + 1) true (parseEncoding (w := w)) := by
  unfold parseEncoding
  infer_instance

instance : Built (n + 1) true (parseName (w := w)) := by
  unfold parseName
  infer_instance

instance : Built (n + 1) true (parseNestedName (w := w)) := by
  unfold parseNestedName
  infer_instance

instance (hasSomething : Bool) : Built n true (parsePrefixItem (w := w) hasSomething) := by
  unfold parsePrefixItem
  infer_instance

instance : Built (n + 1) false (parsePrefix (w := w)) := by
  unfold parsePrefix
  infer_instance

instance : Built (n + 1) true (parseLocalName (w := w)) := by
  unfold parseLocalName
  infer_instance

instance : Built n true (parseFunctionParam (w := w)) := by
  unfold parseFunctionParam
  infer_instance

instance : Built n true (parseSimpleId (w := w)) := by
  unfold parseSimpleId
  infer_instance

instance : Built n true (parseUnresolvedType (w := w)) := by
  unfold parseUnresolvedType
  infer_instance

instance : Built n true (parseBaseUnresolvedName (w := w)) := by
  unfold parseBaseUnresolvedName
  infer_instance

instance : Built n true (parseUnresolvedName (w := w)) := by
  unfold parseUnresolvedName
  infer_instance

instance : Built (n + 1) true (parseBracedExpression (w := w)) := by
  unfold parseBracedExpression
  infer_instance

instance (terminator : Char) (requireOne : Bool) :
    Built n false (parseExpressionSequence (w := w) terminator requireOne) := by
  unfold parseExpressionSequence
  infer_instance

instance : Built n false (parseBracedExpressionSequence (w := w)) := by
  unfold parseBracedExpressionSequence
  infer_instance

instance : Built n true (parseInitializer (w := w)) := by
  unfold parseInitializer
  infer_instance

instance : Built n true (parseRequirement (w := w)) := by
  unfold parseRequirement
  infer_instance

instance : Built n true (parseRequiresExpression (w := w)) := by
  unfold parseRequiresExpression
  infer_instance

instance (arity : OperatorArity) : Built n true (parseOperatorNameWithArity (w := w) arity) := by
  unfold parseOperatorNameWithArity
  infer_instance

instance : Built n true (parseExprPrimary (w := w)) := by
  unfold parseExprPrimary
  infer_instance

set_option synthInstance.maxSize 1024 in
instance : Built n true (parseListedExpression (w := w)) := by
  unfold parseListedExpression
  infer_instance

instance : Built n true (parseNamedExpression (w := w)) := by
  unfold parseNamedExpression
  infer_instance

instance : Built (n + 1) true (parseExpression (w := w)) := by
  unfold parseExpression
  infer_instance

instance : Built (n + 1) true (parseTemplateArg (w := w)) := by
  unfold parseTemplateArg
  infer_instance

omit [Forward w] [ForwardBuilt n w] in
theorem built_parseSuffix : Built n false (parseSuffix (w := w)) := by
  unfold parseSuffix
  refine .scanBind scans_peek fun c _ _ => ?_
  have hversion (state : State) : Built n false
      (maybeAppendWithLength (.bytes (rest w state)) : Parser w Bool) :=
    .text fun h => w.noNul (List.mem_of_mem_drop h)
  have hclone : Built n false (atCloneSuffix (w := w)) := scans_atCloneSuffix.built
  infer_instance

theorem built_parseTopLevelMangledName :
    Built n false (parseTopLevelMangledName (w := w)) := by
  rw [parseTopLevelMangledName_eq]
  exact .and_right inferInstance built_parseSuffix

end Recursive

/-- The recursive parse functions are built at every fuel: without fuel they fail, and with one
more unit each is its definition over the functions one unit below. -/
theorem forwardBuilt_forwardAt (w : CString) :
    ∀ n, @ForwardBuilt n w (forwardAt w n)
  | 0 =>
    letI := forwardAt w 0
    ⟨.exhausted, .exhausted, .exhausted, .exhausted, .exhausted, .exhausted, .exhausted,
      .exhausted, .exhausted⟩
  | n + 1 =>
    letI := forwardAt w n
    haveI := forwardBuilt_forwardAt w n
    @ForwardBuilt.mk (n + 1) w (forwardAt w (n + 1))
      (inferInstanceAs (Built (n + 1) true (parseEncoding (w := w))))
      (inferInstanceAs (Built (n + 1) true (parseName (w := w))))
      (inferInstanceAs (Built (n + 1) true (parseNestedName (w := w))))
      (inferInstanceAs (Built (n + 1) false (parsePrefix (w := w))))
      (inferInstanceAs (Built (n + 1) true (parseType (w := w))))
      (inferInstanceAs (Built (n + 1) true (parseTemplateArg (w := w))))
      (inferInstanceAs (Built (n + 1) true (parseBracedExpression (w := w))))
      (inferInstanceAs (Built (n + 1) true (parseExpression (w := w))))
      (inferInstanceAs (Built (n + 1) true (parseLocalName (w := w))))

end Demangle

end NgLog
