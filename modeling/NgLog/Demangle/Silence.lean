import NgLog.Demangle.Safety

/-!
# With the output switched off

`DisableAppend` keeps function parameters and the like out of the output. A production that calls it
saves the mode and puts it back at its end, so that below one that has switched the output off every
`RestoreAppend` restores the same mode. With the mode off, then, a parse function leaves everything
that belongs to the output as it found it: the buffer, its cursor, the overflow flag and the name
that constructors repeat. It does so whether it succeeds or fails, and whatever it calls.

## Main definitions

* `MutedState` — the states with the output switched off
* `SameOutput` — what belongs to the output is unchanged
* `Silent` — a parse function that leaves the output alone when it is switched off

## Main results

* `silent_forwardAt` — every recursive parse function is silent, at every fuel
* `Silent.sameOutput` — what this says of one run
-/

namespace NgLog

namespace Demangle

open Backtracking (Machine Outcome Frame)

variable {w : CString} {α : Type}

/-! ### The frame -/

/-- A state with the output switched off. -/
abbrev MutedState : Type := { state : State // state.append = false }

/-- The fields that belong to the output, and the buffer, are the same. -/
structure SameOutput (m m' : Machine State Store) : Prop where
  outCur : m'.state.outCur = m.state.outCur
  overflowed : m'.state.overflowed = m.state.overflowed
  prevName : m'.state.prevName = m.state.prevName
  prevNameLength : m'.state.prevNameLength = m.state.prevNameLength
  kept : m'.state.kept = m.state.kept
  out : m'.store.out = m.store.out

theorem SameOutput.refl (m : Machine State Store) : SameOutput m m := ⟨rfl, rfl, rfl, rfl, rfl, rfl⟩

theorem SameOutput.trans {m₁ m₂ m₃ : Machine State Store} (h : SameOutput m₁ m₂)
    (h' : SameOutput m₂ m₃) : SameOutput m₁ m₃ :=
  ⟨h'.outCur.trans h.outCur, h'.overflowed.trans h.overflowed, h'.prevName.trans h.prevName,
    h'.prevNameLength.trans h.prevNameLength, h'.kept.trans h.kept, h'.out.trans h.out⟩

/-- The cursor is in the name and the output is switched off. -/
structure Quiet (w : CString) (m : Machine State Store) : Prop where
  cursor_le : m.state.mangledCur ≤ w.length
  append_eq : m.state.append = false

/-- Faults are let through. -/
def silence (w : CString) : Frame Fault State Store where
  allowed _ := True
  inv := Quiet w
  rel m m' := Quiet w m' ∧ SameOutput m m'
  progress _ _ := True
  rel_refl h := ⟨h, .refl _⟩
  rel_trans h h' := ⟨h'.1, h.2.trans h'.2⟩
  inv_of_rel _ h := h.1
  rel_restore h h' := ⟨⟨h.cursor_le, h.append_eq⟩, rfl, rfl, rfl, rfl, rfl, h'.2.out⟩
  progress_of_rel _ _ := trivial
  rel_progress _ _ := trivial

/-- Switched off, the output is left alone. -/
class Silent (f : Parser w Bool) : Prop where
  runs : (silence w).Runs true f

theorem silent_of_false {f : Parser w Bool} (h : (silence w).Runs false f) : Silent f :=
  ⟨fun m hm => (h m hm).mono fun _ _ hpost => ⟨hpost.1, fun _ _ => trivial⟩⟩

/-- What a silent function promises of one run. -/
theorem Silent.sameOutput {f : Parser w Bool} (hf : Silent f) {m m' : Machine State Store}
    {b : Bool} (hcursor : m.state.mangledCur ≤ w.length) (happend : m.state.append = false)
    (h : f m = .ok (b, m')) : Quiet w m' ∧ SameOutput m m' := by
  have hpost := hf.runs m ⟨hcursor, happend⟩
  rw [h] at hpost
  exact hpost.1

/-! ### The combinators -/

section Instances

variable {f g c : Parser w Bool}

instance [hf : Silent f] [hg : Silent g] : Silent (f <&&> g : Parser w Bool) :=
  ⟨Frame.runs_and hf.runs hg.runs⟩

instance [hf : Silent f] [hg : Silent g] : Silent (f <||> g : Parser w Bool) :=
  ⟨Frame.runs_or hf.runs hg.runs⟩

instance [hf : Silent f] : Silent (attempt f) := ⟨Frame.runs_attempt hf.runs⟩

instance [hc : Silent c] [hf : Silent f] [hg : Silent g] : Silent (attemptTwice c f g) :=
  ⟨Frame.runs_attemptTwice hc.runs hf.runs.weaken hg.runs⟩

instance [hc : Silent c] [hf : Silent f] [hg : Silent g] : Silent (branch c f g) :=
  ⟨Frame.runs_branch hc.runs hf.runs hg.runs⟩

instance [hf : Silent f] : Silent (optional f) := silent_of_false (Frame.runs_optional hf.runs)

instance [hf : Silent f] : Silent (zeroOrMore f) :=
  silent_of_false (Frame.runs_zeroOrMore hf.runs (.inl trivial))

instance [hf : Silent f] : Silent (oneOrMore f) :=
  inferInstanceAs (Silent (f <&&> zeroOrMore f : Parser w Bool))

/-- A saved state is one with the output switched off. -/
instance {k : State → Parser w Bool} [hk : ∀ state : MutedState, Silent (k state.val)] :
    Silent (saving k) := ⟨fun m hm => (hk ⟨m.state, hm.append_eq⟩).runs m hm⟩

instance {p : Prop} [Decidable p] [hf : Silent f] [hg : Silent g] :
    Silent (if p then f else g : Parser w Bool) := by
  split
  · exact hf
  · exact hg

/-! ### The primitives -/

/-- A scan moves the cursor of the mangled name and nothing else. -/
theorem Scans.silent {post : Bool → ℕ → Prop} (hf : Scans f post) : Silent f := by
  refine ⟨fun m hm => ?_⟩
  obtain ⟨b, k, hrun, hk, -⟩ := hf m hm.cursor_le
  rw [hrun]
  exact ⟨⟨⟨hk, hm.append_eq⟩, rfl, rfl, rfl, rfl, rfl, rfl⟩, fun _ _ => trivial⟩

instance (b : Bool) : Silent (pure b : Parser w Bool) := (scans_pure b).silent

instance (p : State → Bool) : Silent (saving fun state => (pure (p state) : Parser w Bool)) :=
  (accepts_saving_pure p).silent

instance (t : Char) (h : t.toUInt8 ≠ 0) : Silent (parseOneCharToken (w := w) t h) :=
  (accepts_parseOneCharToken t h).silent

instance (t : String) (h : (bytes t).length = 2) : Silent (parseTwoCharToken (w := w) t h) :=
  (accepts_parseTwoCharToken t h).silent

instance (t : String) : Silent (parseCharClass (w := w) t) := (accepts_parseCharClass t).silent

instance (numberOut : Bool) : Silent (succeeds (parseNumber (w := w) numberOut)) :=
  (accepts_succeeds (yields_parseNumber numberOut)).silent

instance : Silent (succeeds (parsePositiveNumber (w := w) false)) :=
  (accepts_succeeds ((scans_parsePositiveNumber false).mono fun _ _ h => h.1)).silent

instance : Silent (skipNonNegativeNumber (w := w)) := accepts_skipNonNegativeNumber.silent

instance (cond : ℤ → Bool) : Silent (parseNumberSuch (w := w) cond) :=
  (accepts_parseNumberSuch cond).silent

instance : Silent (parseFloatNumber (w := w)) := accepts_parseFloatNumber.silent

instance : Silent (parseSeqId (w := w)) := accepts_parseSeqId.silent

instance : Silent (parseCVQualifiers (w := w)) := accepts_parseCVQualifiers.silent

instance (first : Char) (seconds : String) [h : Fact (first.toUInt8 ≠ 0)] :
    Silent (atTwoChars (w := w) first seconds) := (scans_atTwoChars first seconds h.out).silent

instance (stops : List Byte) (least : Bool) [hf : Silent f] : Silent (parseUntil stops least f) :=
  silent_of_false (Frame.runs_repeatUntil (scans_stop stops).silent.runs.weaken hf.runs
    (.inl trivial) (.inl trivial))

instance (count : ℕ) : Silent (atLeastNumCharsRemaining (w := w) count) :=
  have hscan : Scans (atLeastNumCharsRemaining (w := w) count) fun _ _ => True :=
    fun _ hm => ⟨_, 0, rfl, hm, trivial⟩
  hscan.silent

theorem silent_scanBind {f : Parser w α} {post : α → ℕ → Prop} {k : α → Parser w Bool}
    (hf : Scans f post) (hk : ∀ a, Silent (k a)) : Silent (f >>= k : Parser w Bool) := by
  refine ⟨fun m hm => ?_⟩
  obtain ⟨a, i, hrun, hi, -⟩ := hf m hm.cursor_le
  rw [bind_ok hrun]
  exact ((hk a).runs).after hm ⟨⟨hi, hm.append_eq⟩, rfl, rfl, rfl, rfl, rfl, rfl⟩

instance {k : Byte → Parser w Bool} [hk : ∀ c, Silent (k c)] :
    Silent (parseRefQualifier >>= k : Parser w Bool) := silent_scanBind scans_parseRefQualifier hk

instance : Silent (fault .outOfFuel : Parser w Bool) := ⟨fun _ _ => trivial⟩

/-- A change of fields that do not belong to the output. -/
theorem silent_modify {c : State → State}
    (hc : ∀ m : Machine State Store, Quiet w m →
      Quiet w ⟨c m.state, m.store⟩ ∧ SameOutput m ⟨c m.state, m.store⟩) :
    Silent (modify c : Parser w Bool) := ⟨fun m hm => ⟨hc m hm, fun _ _ => trivial⟩⟩

instance : Silent (disableAppend (w := w)) :=
  silent_modify fun _ hm => ⟨⟨hm.cursor_le, rfl⟩, rfl, rfl, rfl, rfl, rfl, rfl⟩

/-- The mode that is restored is the one that was saved: off. -/
instance (state : MutedState) : Silent (restoreAppend (w := w) state.val.append) :=
  silent_modify fun _ hm => ⟨⟨hm.cursor_le, state.property⟩, rfl, rfl, rfl, rfl, rfl, rfl⟩

instance : Silent (enterNestedName (w := w)) :=
  silent_modify fun _ hm => ⟨⟨hm.cursor_le, hm.append_eq⟩, rfl, rfl, rfl, rfl, rfl, rfl⟩

instance (value : Int16) : Silent (leaveNestedName (w := w) value) :=
  silent_modify fun _ hm => ⟨⟨hm.cursor_le, hm.append_eq⟩, rfl, rfl, rfl, rfl, rfl, rfl⟩

instance (value : Byte) : Silent (setPendingRefQualifier (w := w) value) :=
  silent_modify fun _ hm => ⟨⟨hm.cursor_le, hm.append_eq⟩, rfl, rfl, rfl, rfl, rfl, rfl⟩

instance (value : Bool) :
    Silent (modify fun state => { state with skipSeparator := value } : Parser w Bool) :=
  silent_modify fun _ hm => ⟨⟨hm.cursor_le, hm.append_eq⟩, rfl, rfl, rfl, rfl, rfl, rfl⟩

instance : Silent (maybeIncreaseNestLevel (w := w)) :=
  silent_modify fun m hm => by
    by_cases hlevel : m.state.nestLevel > -1
    · rw [if_pos hlevel]
      exact ⟨⟨hm.cursor_le, hm.append_eq⟩, rfl, rfl, rfl, rfl, rfl, rfl⟩
    · rw [if_neg hlevel]
      exact ⟨hm, .refl m⟩

/-! ### The output functions -/

instance (str : Text) : Silent (maybeAppendWithLength (w := w) str) := by
  refine ⟨fun m hm => ?_⟩
  rw [maybeAppendWithLength, saving_run, hm.append_eq, Bool.false_and, if_neg Bool.false_ne_true]
  exact ⟨(silence w).rel_refl hm, fun _ _ => trivial⟩

instance (t : String) (h : 0 ∉ bytes t) : Silent (maybeAppend (w := w) t h) :=
  inferInstanceAs (Silent (maybeAppendWithLength (.bytes (bytes t))))

theorem silent_appendAll : ∀ texts : List String, Silent (appendAll (w := w) texts)
  | [] => inferInstanceAs (Silent (pure true : Parser w Bool))
  | text :: texts =>
    have := silent_appendAll texts
    inferInstanceAs (Silent (maybeAppendWithLength (.bytes (bytes text)) <&&>
      appendAll texts : Parser w Bool))

instance (texts : List String) : Silent (appendAll (w := w) texts) := silent_appendAll texts

instance (lead : List String) : Silent (appendPrevName (w := w) lead) := by
  unfold appendPrevName
  infer_instance

instance : Silent (hasPrevName (w := w)) := by
  unfold hasPrevName
  infer_instance

instance : Silent (maybeAppendSeparator (w := w)) := by
  unfold maybeAppendSeparator
  infer_instance

/-- Skipping a given number of bytes can leave the name, and is a fault then. -/
instance (count : ℕ) : Silent (advance (w := w) count) := by
  refine ⟨fun m hm => ?_⟩
  by_cases hle : m.state.mangledCur + count ≤ w.length
  · rw [advance_run hle]
    exact ⟨⟨⟨hle, hm.append_eq⟩, rfl, rfl, rfl, rfl, rfl, rfl⟩, fun _ _ => trivial⟩
  · rw [advance, if_neg hle]
    trivial

theorem silent_accept {found : Parser w (Option α)} {length : α → ℕ} {texts : α → List String}
    (hf : Finds found length texts) : Silent (acceptAbbrev found length texts) := by
  refine ⟨fun m hm => ?_⟩
  obtain ⟨p, hrun, -⟩ := hf m hm.cursor_le
  rw [acceptAbbrev, bind_ok hrun]
  cases p with
  | none => exact Frame.runs_pure_false m hm
  | some p =>
    have hsilent : Silent (appendAll (texts p) <&&> advance (length p) : Parser w Bool) :=
      inferInstance
    exact hsilent.runs m hm

instance : Silent (acceptAbbrev (w := w) findSubstitution (fun _ => 1) substitutionTexts) :=
  silent_accept finds_findSubstitution

instance : Silent (acceptAbbrev (w := w) findOperator (fun _ => 2) operatorTexts) :=
  silent_accept finds_findOperator

instance : Silent (acceptAbbrev (w := w) findBuiltinType (fun p => p.abbreviation.length)
    fun p => [p.realName]) := silent_accept finds_findBuiltinType

end Instances

/-! ### Iterations of `ParsePrefix`, identifiers and guards -/

section Instances

variable {f : Parser w Bool}

/-- Switched off, there is no separator to take back. -/
instance [hf : Silent f] : Silent (separated f) := by
  refine ⟨fun m hm => ?_⟩
  have hboth : Silent (maybeAppendSeparator <&&> f : Parser w Bool) := inferInstance
  refine Outcome.bind (hboth.runs m hm) fun b m₁ h₁ => ?_
  cases b with
  | true => exact h₁
  | false =>
    have hoff : ¬(m₁.state.nestLevel ≥ 1 && m₁.state.append && m₁.state.outCur ≥ 2) = true := by
      rw [h₁.1.1.append_eq, Bool.and_false, Bool.false_and]
      exact Bool.false_ne_true
    rw [if_neg Bool.false_ne_true, bind_ok (maybeCancelLastSeparator_skip hoff)]
    exact h₁

instance (length : ℤ) : Silent (parseIdentifier (w := w) length) := by
  refine ⟨fun m hm => ?_⟩
  rw [parseIdentifier, bind_ok (atLeastNumCharsRemaining_run _ _)]
  split
  · exact Frame.runs_pure_false m hm
  · rw [bind_ok (identifierIsAnonymousNamespace_run _ _)]
    have hadvance : Silent (advance (w := w) length.toNat) := inferInstance
    split
    · have hname : Silent (maybeAppend (w := w) "(anonymous namespace)") := inferInstance
      exact Outcome.bind (hname.runs m hm) fun _ _ h => hadvance.runs.after hm h.1
    · have hname : Silent (maybeAppendWithLength (w := w)
          (.bytes ((rest w m.state).take length.toNat))) := inferInstance
      exact Outcome.bind (hname.runs m hm) fun _ _ h => hadvance.runs.after hm h.1

theorem setLevel_quiet {m : Machine State Store} (hm : Quiet w m) (value : ℕ) (level : Level) :
    (silence w).rel m ⟨m.state.setLevel value level, m.store⟩ := by
  cases level <;> exact ⟨⟨hm.cursor_le, hm.append_eq⟩, rfl, rfl, rfl, rfl, rfl, rfl⟩

instance (level : Level) [hf : Silent f] : Silent (guardLevel level f) := by
  refine ⟨fun m hm => ?_⟩
  by_cases hlevel : m.state.level level < maxLevel level
  · have henter : enterLevel (w := w) level m = .ok (true, entered m level) := if_pos hlevel
    rw [guardLevel, bind_ok henter, if_pos rfl]
    have hentered := setLevel_quiet hm (m.state.level level + 1) level
    refine Outcome.bind (hf.runs.after hm hentered) fun b m₁ h₁ => ?_
    by_cases hleft : 0 < m₁.state.level level
    · have hleave : leaveLevel (w := w) level m₁ = .ok ((), left m₁ level) := if_pos hleft
      rw [bind_ok hleave]
      exact ⟨(silence w).rel_trans h₁.1 (setLevel_quiet h₁.1.1 _ level), fun _ _ => trivial⟩
    · have hleave : leaveLevel (w := w) level m₁ = .error .levelUnderflow := if_neg hleft
      rw [bind_error hleave]
      trivial
  · have henter : enterLevel (w := w) level m = .ok (false, m) := if_neg hlevel
    rw [guardLevel, bind_ok henter, if_neg Bool.false_ne_true]
    exact Frame.runs_pure_false m hm

instance : Silent (countStep (w := w)) := by
  refine ⟨fun m hm => ?_⟩
  rw [countStep]
  split
  · exact ⟨⟨⟨hm.cursor_le, hm.append_eq⟩, rfl, rfl, rfl, rfl, rfl, rfl⟩, fun _ _ => trivial⟩
  · exact Frame.runs_pure_false m hm

instance [hf : Silent f] : Silent (guardDepth f) :=
  inferInstanceAs (Silent (guardLevel .depth (countStep <&&> f)))

end Instances

/-! ### The grammar -/

instance factUpperU : Fact ('U'.toUInt8 ≠ 0) := ⟨by decide⟩

instance factUpperD : Fact ('D'.toUInt8 ≠ 0) := ⟨by decide⟩

instance : Silent (parseSourceName (w := w)) := by
  have hname : Silent (do
      match ← parsePositiveNumber true with
      | some length => if length ≤ ssizeMax then parseIdentifier length else return false
      | none => return false : Parser w Bool) :=
    silent_scanBind (scans_parsePositiveNumber true) fun number => by
      cases number with
      | none => exact inferInstanceAs (Silent (pure false : Parser w Bool))
      | some length =>
        exact inferInstanceAs (Silent (if length ≤ ssizeMax then parseIdentifier length
          else pure false : Parser w Bool))
  unfold parseSourceName
  infer_instance

instance : Silent (parseDiscriminator (w := w)) := by
  unfold parseDiscriminator
  infer_instance

instance : Silent (parseLocalSourceName (w := w)) := by
  unfold parseLocalSourceName
  infer_instance

instance : Silent (parseAbiTag (w := w)) := by
  unfold parseAbiTag
  infer_instance

instance : Silent (parseAbiTags (w := w)) := by
  unfold parseAbiTags
  infer_instance

instance : Silent (parseNVOffset (w := w)) := by
  unfold parseNVOffset
  infer_instance

instance : Silent (parseVOffset (w := w)) := by
  unfold parseVOffset
  infer_instance

instance : Silent (parseCallOffset (w := w)) := by
  unfold parseCallOffset
  infer_instance

instance : Silent (parseTemplateParam (w := w)) := by
  unfold parseTemplateParam
  infer_instance

instance : Silent (parseSubstitution (w := w)) := by
  unfold parseSubstitution
  infer_instance

instance : Silent (parseTemplateTemplateParam (w := w)) := by
  unfold parseTemplateTemplateParam
  infer_instance

section Recursive

/-- The recursive parse functions are silent. -/
class ForwardSilent (w : CString) [Forward w] : Prop where
  parseEncoding : Silent (Forward.parseEncoding (w := w))
  parseName : Silent (Forward.parseName (w := w))
  parseNestedName : Silent (Forward.parseNestedName (w := w))
  parsePrefix : Silent (Forward.parsePrefix (w := w))
  parseType : Silent (Forward.parseType (w := w))
  parseTemplateArg : Silent (Forward.parseTemplateArg (w := w))
  parseBracedExpression : Silent (Forward.parseBracedExpression (w := w))
  parseExpression : Silent (Forward.parseExpression (w := w))
  parseLocalName : Silent (Forward.parseLocalName (w := w))

attribute [instance] ForwardSilent.parseEncoding ForwardSilent.parseName
  ForwardSilent.parseNestedName ForwardSilent.parsePrefix ForwardSilent.parseType
  ForwardSilent.parseTemplateArg ForwardSilent.parseBracedExpression
  ForwardSilent.parseExpression ForwardSilent.parseLocalName

variable [Forward w] [ForwardSilent w]

instance : Silent (parseMangledName (w := w)) := by
  unfold parseMangledName
  infer_instance

instance : Silent (parseOperatorName (w := w)) := by
  unfold parseOperatorName
  infer_instance

instance : Silent (parseCtorDtorName (w := w)) := by
  unfold parseCtorDtorName
  infer_instance

instance : Silent (parseUnnamedTypeName (w := w)) := by
  unfold parseUnnamedTypeName
  infer_instance

instance : Silent (parseStructuredBindingName (w := w)) := by
  unfold parseStructuredBindingName
  infer_instance

instance : Silent (parseUnqualifiedName (w := w)) := by
  unfold parseUnqualifiedName
  infer_instance

instance : Silent (parseUnscopedName (w := w)) := by
  unfold parseUnscopedName
  infer_instance

instance : Silent (parseUnscopedTemplateName (w := w)) := by
  unfold parseUnscopedTemplateName
  infer_instance

instance : Silent (parseRequiresClause (w := w)) := by
  unfold parseRequiresClause
  infer_instance

instance : Silent (parseTemplateArgs (w := w)) := by
  unfold parseTemplateArgs
  infer_instance

instance : Silent (parseBareFunctionType (w := w)) := by
  unfold parseBareFunctionType
  infer_instance

instance : Silent (parseExceptionSpec (w := w)) := by
  unfold parseExceptionSpec
  infer_instance

instance : Silent (parseSpecialName (w := w)) := by
  unfold parseSpecialName
  infer_instance

instance : Silent (parseBuiltinType (w := w)) := by
  unfold parseBuiltinType
  infer_instance

instance : Silent (parseFunctionType (w := w)) := by
  unfold parseFunctionType
  infer_instance

instance : Silent (parseClassEnumType (w := w)) := by
  unfold parseClassEnumType
  infer_instance

instance : Silent (parseArrayType (w := w)) := by
  unfold parseArrayType
  infer_instance

instance : Silent (parsePointerToMemberType (w := w)) := by
  unfold parsePointerToMemberType
  infer_instance

instance : Silent (parseType (w := w)) := by
  unfold parseType
  infer_instance

instance : Silent (appendRefQualifier (w := w)) := by
  unfold appendRefQualifier
  infer_instance

instance : Silent (parseEncoding (w := w)) := by
  unfold parseEncoding
  infer_instance

instance : Silent (parseName (w := w)) := by
  unfold parseName
  infer_instance

instance : Silent (parseNestedName (w := w)) := by
  unfold parseNestedName
  infer_instance

instance (hasSomething : Bool) : Silent (parsePrefixItem (w := w) hasSomething) := by
  unfold parsePrefixItem
  infer_instance

instance : Silent (parsePrefix (w := w)) := by
  unfold parsePrefix
  infer_instance

instance : Silent (parseLocalName (w := w)) := by
  unfold parseLocalName
  infer_instance

instance : Silent (parseFunctionParam (w := w)) := by
  unfold parseFunctionParam
  infer_instance

instance : Silent (parseSimpleId (w := w)) := by
  unfold parseSimpleId
  infer_instance

instance : Silent (parseUnresolvedType (w := w)) := by
  unfold parseUnresolvedType
  infer_instance

instance : Silent (parseBaseUnresolvedName (w := w)) := by
  unfold parseBaseUnresolvedName
  infer_instance

instance : Silent (parseUnresolvedName (w := w)) := by
  unfold parseUnresolvedName
  infer_instance

instance : Silent (parseBracedExpression (w := w)) := by
  unfold parseBracedExpression
  infer_instance

instance (terminator : Char) (requireOne : Bool) :
    Silent (parseExpressionSequence (w := w) terminator requireOne) := by
  unfold parseExpressionSequence
  infer_instance

instance : Silent (parseBracedExpressionSequence (w := w)) := by
  unfold parseBracedExpressionSequence
  infer_instance

instance : Silent (parseInitializer (w := w)) := by
  unfold parseInitializer
  infer_instance

instance : Silent (parseRequirement (w := w)) := by
  unfold parseRequirement
  infer_instance

instance : Silent (parseRequiresExpression (w := w)) := by
  unfold parseRequiresExpression
  infer_instance

instance (arity : OperatorArity) : Silent (parseOperatorNameWithArity (w := w) arity) := by
  unfold parseOperatorNameWithArity
  infer_instance

instance : Silent (parseExprPrimary (w := w)) := by
  unfold parseExprPrimary
  infer_instance

set_option synthInstance.maxSize 1024 in
instance : Silent (parseListedExpression (w := w)) := by
  unfold parseListedExpression
  infer_instance

instance : Silent (parseNamedExpression (w := w)) := by
  unfold parseNamedExpression
  infer_instance

instance : Silent (parseExpression (w := w)) := by
  unfold parseExpression
  infer_instance

instance : Silent (parseTemplateArg (w := w)) := by
  unfold parseTemplateArg
  infer_instance

end Recursive

/-- Every recursive parse function is silent, at every fuel. -/
theorem silent_forwardAt (w : CString) : ∀ n, @ForwardSilent w (forwardAt w n)
  | 0 =>
    have hfault : Silent (fault .outOfFuel : Parser w Bool) := inferInstance
    @ForwardSilent.mk w (forwardAt w 0) hfault hfault hfault hfault hfault hfault hfault hfault
      hfault
  | n + 1 =>
    letI := forwardAt w n
    haveI := silent_forwardAt w n
    @ForwardSilent.mk w (forwardAt w (n + 1))
      (inferInstanceAs (Silent (parseEncoding (w := w))))
      (inferInstanceAs (Silent (parseName (w := w))))
      (inferInstanceAs (Silent (parseNestedName (w := w))))
      (inferInstanceAs (Silent (parsePrefix (w := w))))
      (inferInstanceAs (Silent (parseType (w := w))))
      (inferInstanceAs (Silent (parseTemplateArg (w := w))))
      (inferInstanceAs (Silent (parseBracedExpression (w := w))))
      (inferInstanceAs (Silent (parseExpression (w := w))))
      (inferInstanceAs (Silent (parseLocalName (w := w))))

end Demangle

end NgLog
