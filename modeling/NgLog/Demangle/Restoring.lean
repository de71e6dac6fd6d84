import NgLog.Demangle.Safety
import NgLog.Support.Restoration

/-!
# Parse functions that restore the state

"Each parsing function changes the state and returns true on success. Otherwise, don't change the
state and returns false." The alternatives of the grammar rely on this, and most functions keep it,
by saving the state before they call two parse functions in a row. They are found by instance
resolution along the grammar, as in the closure: an `attempt` restores whatever its body does, a
guard counts back, and a sequence restores if only its first part can fail. Nothing is assumed of
the machine.

## Main definitions

* `ForwardRestores` — the recursive parse functions restore the state

## Main results

* `parseNumber_eq_none`, `parseNumber_of_sign` — when `parseNumber` fails, and the path on which it
  does not put the sign back
* `restores_forwardAt` — the recursive parse functions restore the state at every fuel
-/

namespace NgLog

namespace Demangle

open Backtracking (Machine)
open Backtracking.Parser (Restores RestoresAt NeverFails Observes bind_eq_ok)

variable {w : CString} {α : Type}

/-! ### The combinators -/

section Instances

variable {f g : Parser w Bool}

instance : Restores (pure false : Parser w Bool) :=
  (Backtracking.Parser.observes_pure false).restores

instance : NeverFails (pure true : Parser w Bool) := Backtracking.Parser.neverFails_pure_true

instance (c : State → State) : NeverFails (modify c : Parser w Bool) :=
  Backtracking.Parser.neverFails_modify c

instance [hf : NeverFails f] : Restores f := hf.restores

instance (f : Parser w Bool) : Restores (attempt f) := Backtracking.Parser.restores_attempt f

instance [hf : Restores f] [hg : Restores g] : Restores (f <||> g : Parser w Bool) :=
  Backtracking.Parser.restores_or hf hg

instance [hf : Restores f] [hg : NeverFails g] : Restores (f <&&> g : Parser w Bool) :=
  Backtracking.Parser.restores_and hf hg

instance [hf : Observes f] [hg : Restores g] : Restores (f <&&> g : Parser w Bool) :=
  Backtracking.Parser.restores_observes_and hf hg

instance {f : Parser w α} {k : α → Parser w Bool} [hf : Observes f] [hk : ∀ a, Restores (k a)] :
    Restores (f >>= k : Parser w Bool) := Backtracking.Parser.restores_bind hf hk

instance {k : State → Parser w Bool} [hk : ∀ state, Restores (k state)] : Restores (saving k) :=
  Backtracking.Parser.restores_saving hk

instance {p : Prop} [Decidable p] [hf : Restores f] [hg : Restores g] :
    Restores (if p then f else g : Parser w Bool) := by
  split
  · exact hf
  · exact hg

instance (f : Parser w Bool) : NeverFails (optional f) := Backtracking.Parser.neverFails_optional f

instance [hf : NeverFails f] [hg : NeverFails g] : NeverFails (f <&&> g : Parser w Bool) :=
  Backtracking.Parser.neverFails_and hf hg

instance {f : Parser w α} {k : α → Parser w Bool} [hk : ∀ a, NeverFails (k a)] :
    NeverFails (f >>= k : Parser w Bool) := Backtracking.Parser.neverFails_bind hk

instance {k : State → Parser w Bool} [hk : ∀ state, NeverFails (k state)] :
    NeverFails (saving k) := Backtracking.Parser.neverFails_saving hk

instance {p : Prop} [Decidable p] [hf : NeverFails f] [hg : NeverFails g] :
    NeverFails (if p then f else g : Parser w Bool) := by
  split
  · exact hf
  · exact hg

instance (b : α) : Observes (pure b : Parser w α) := Backtracking.Parser.observes_pure b

instance (p : State → α) : Observes (saving fun state => (pure (p state) : Parser w α)) :=
  Backtracking.Parser.observes_saving fun state => Backtracking.Parser.observes_pure (p state)

instance {β : Type} {f : Parser w α} {k : α → Parser w β} [hf : Observes f]
    [hk : ∀ a, Observes (k a)] : Observes (f >>= k : Parser w β) :=
  Backtracking.Parser.observes_bind hf hk

instance {p : Prop} [Decidable p] {f g : Parser w α} [hf : Observes f] [hg : Observes g] :
    Observes (if p then f else g : Parser w α) := by
  split
  · exact hf
  · exact hg

/-! ### The primitives -/

instance (offset : ℕ) : Observes (peek (w := w) offset) := by
  refine ⟨fun m a m' h => ?_⟩
  rw [peek] at h
  split at h
  · cases h
    rfl
  · cases h

instance (count : ℕ) : NeverFails (advance (w := w) count) := by
  refine ⟨fun m m' h => ?_⟩
  rw [advance] at h
  split at h
  · cases h
  · cases h

instance (text : String) : Observes (strPrefix (w := w) text) :=
  ⟨fun _ _ _ h => by cases h; rfl⟩

instance (count : ℕ) : Observes (atLeastNumCharsRemaining (w := w) count) :=
  ⟨fun _ _ _ h => by cases h; rfl⟩

instance (length : ℤ) : Observes (identifierIsAnonymousNamespace (w := w) length) :=
  ⟨fun _ _ _ h => by cases h; rfl⟩

instance (t : Char) (h : t.toUInt8 ≠ 0) : Restores (parseOneCharToken (w := w) t h) := by
  unfold parseOneCharToken
  infer_instance

instance (t : String) (h : (bytes t).length = 2) : Restores (parseTwoCharToken (w := w) t h) := by
  unfold parseTwoCharToken
  infer_instance

instance (t : String) : Restores (parseCharClass (w := w) t) := by
  unfold parseCharClass
  infer_instance

instance (str : Text) : NeverFails (maybeAppendWithLength (w := w) str) := by
  unfold maybeAppendWithLength
  infer_instance

instance (t : String) (h : 0 ∉ bytes t) : NeverFails (maybeAppend (w := w) t h) := by
  unfold maybeAppend
  infer_instance

theorem neverFails_appendAll : ∀ texts : List String, NeverFails (appendAll (w := w) texts)
  | [] => inferInstanceAs (NeverFails (pure true : Parser w Bool))
  | text :: texts =>
    have := neverFails_appendAll texts
    inferInstanceAs (NeverFails (maybeAppendWithLength (.bytes (bytes text)) <&&>
      appendAll texts : Parser w Bool))

instance (texts : List String) : NeverFails (appendAll (w := w) texts) :=
  neverFails_appendAll texts

/-- An abbreviation is looked for before anything is written; what follows cannot fail. -/
instance {found : Parser w (Option α)} {length : α → ℕ} {texts : α → List String}
    [hf : Observes found] : Restores (acceptAbbrev found length texts) :=
  Backtracking.Parser.restores_bind hf fun p => by
    cases p with
    | none => exact inferInstanceAs (Restores (pure false : Parser w Bool))
    | some p =>
      exact inferInstanceAs (Restores (appendAll (texts p) <&&> advance (length p) : Parser w Bool))

end Instances

/-! ### The guards -/

theorem setLevel_entered (state : State) (level : Level) :
    let inside := state.setLevel (state.level level + 1) level
    inside.setLevel (inside.level level - 1) level = state := by
  cases level <;> rfl

/-- A body that fails where it was entered leaves the guard to count back to where it was. -/
instance instRestoresGuardLevel (level : Level) {f : Parser w Bool} [hf : Restores f] :
    Restores (guardLevel level f) := by
  refine ⟨fun m m' h => ?_⟩
  by_cases hlevel : m.state.level level < maxLevel level
  · have henter : enterLevel (w := w) level m = .ok (true, entered m level) := if_pos hlevel
    rw [guardLevel, bind_ok henter, if_pos rfl] at h
    obtain ⟨b, m₁, hbody, h⟩ := bind_eq_ok h
    obtain ⟨_, m₂, hleave, h⟩ := bind_eq_ok h
    cases h
    have hstate := hf.restoresAt (entered m level) m₁ hbody
    rw [leaveLevel] at hleave
    split at hleave
    · cases hleave
      rw [hstate]
      exact setLevel_entered m.state level
    · cases hleave
  · have henter : enterLevel (w := w) level m = .ok (false, m) := if_neg hlevel
    rw [guardLevel, bind_ok henter, if_neg Bool.false_ne_true] at h
    cases h
    rfl

instance : Observes (countStep (w := w)) := by
  refine ⟨fun m b m' h => ?_⟩
  rw [countStep] at h
  split at h
  · cases h
    rfl
  · cases h
    rfl

instance instRestoresGuardDepth {f : Parser w Bool} [hf : Restores f] : Restores (guardDepth f) :=
  inferInstanceAs (Restores (guardLevel .depth (countStep <&&> f)))

/-! ### Numbers and identifiers -/

theorem succeeds_eq_false_iff {f : Parser w (Option α)} {m m' : Machine State Store} :
    succeeds f m = .ok (false, m') ↔ f m = .ok (none, m') := by
  rw [succeeds, bind_run]
  rcases f m with e | ⟨_ | a, m₁⟩
  · simp
  · simp [pure_run]
  · simp [pure_run]

theorem headD_rest (m : Machine State Store) :
    (rest w m.state).headD 0 = w.byteAt m.state.mangledCur := by
  by_cases hlt : m.state.mangledCur < w.length
  · have hdrop := List.drop_eq_getElem_cons (l := w.text) hlt
    rw [rest, hdrop, CString.byteAt_of_lt hlt]
    rfl
  · have hdrop : rest w m.state = [] := List.drop_eq_nil_of_le (Nat.le_of_not_lt hlt)
    rw [hdrop, CString.byteAt_of_le (Nat.le_of_not_lt hlt)]
    rfl

theorem isDigit_of_superfluousZero {p : List Byte} (h : superfluousZero p = true) :
    isDigit (p.headD 0) = true := by
  rcases p with _ | ⟨c, _ | ⟨d, p⟩⟩
  · cases h
  · cases h
  · have hzero := beq_iff_eq.mp (Bool.and_eq_true_iff.mp h).1
    rw [List.headD_cons, hzero]
    decide

theorem count_le_of_scanNumber {limit : ℕ} :
    ∀ {p : List Byte} {number count n c : ℕ},
      scanNumber limit p number count = some (n, c) → count ≤ c
  | [], _, _, _, _, h => by
    simp only [scanNumber, Option.some.injEq, Prod.mk.injEq] at h
    omega
  | b :: p, number, count, n, c, h => by
    rw [scanNumber] at h
    split at h
    · dsimp only at h
      split at h
      · cases h
      · exact Nat.le_of_succ_le (count_le_of_scanNumber h)
    · simp only [Option.some.injEq, Prod.mk.injEq] at h
      omega

/-- The conversion has digits exactly when there is one to begin with. -/
theorem count_eq_zero_iff {limit : ℕ} {p : List Byte} {n c : ℕ}
    (h : scanNumber limit p 0 0 = some (n, c)) : c = 0 ↔ isDigit (p.headD 0) = false := by
  rcases p with _ | ⟨b, p⟩
  · simp only [scanNumber, Option.some.injEq, Prod.mk.injEq] at h
    exact ⟨fun _ => by decide, fun _ => h.2.symm⟩
  · rw [scanNumber] at h
    rw [List.headD_cons]
    cases hb : isDigit b with
    | false =>
      rw [hb, if_neg Bool.false_ne_true, Option.some.injEq, Prod.mk.injEq] at h
      exact ⟨fun _ => rfl, fun _ => h.2.symm⟩
    | true =>
      rw [hb, if_pos rfl] at h
      dsimp only at h
      split at h
      · cases h
      · have hle := count_le_of_scanNumber h
        exact ⟨fun hc => by omega, fun hc => by cases hc⟩

theorem restoresAt_parseOneCharToken {t : Char} {h : t.toUInt8 ≠ 0} (m : Machine State Store) :
    RestoresAt (parseOneCharToken (w := w) t h) m := Restores.restoresAt m

/-- When `parseNumber` fails. It takes the sign first, and puts it back on every path but the one
on which no digit follows and the number is wanted. -/
theorem parseNumber_eq_none {numberOut : Bool} {m m' : Machine State Store}
    (h : parseNumber (w := w) numberOut m = .ok (none, m')) :
    m'.state = m.state ∨
      numberOut = true ∧ (parseOneCharToken 'n' : Parser w Bool) m = .ok (true, m') ∧
        isDigit (w.byteAt m'.state.mangledCur) = false := by
  rw [parseNumber, saving_run] at h
  obtain ⟨negative, m₁, hsign, h⟩ := bind_eq_ok h
  rw [saving_run] at h
  split at h
  · cases h
    exact .inl rfl
  split at h
  · dsimp only at h
    split at h
    · obtain ⟨_, m₂, -, h⟩ := bind_eq_ok h
      cases h
    · cases h
      exact .inl rfl
  · rename_i hout
    generalize (if negative = true then kMaxNegative else kMaxPositive) = limit at h
    rcases hscan : scanNumber limit (rest w m₁.state) 0 0 with _ | ⟨number, count⟩
    · rw [hscan] at h
      cases h
      exact .inl rfl
    · rw [hscan] at h
      dsimp only at h
      split at h
      · obtain ⟨_, m₂, -, h⟩ := bind_eq_ok h
        cases h
      · rename_i hcount
        cases h
        cases negative with
        | false => exact .inl (restoresAt_parseOneCharToken m m' hsign)
        | true =>
          refine .inr ⟨by simpa using hout, hsign, ?_⟩
          rw [← headD_rest]
          exact (count_eq_zero_iff hscan).mp (by simpa using hcount)

/-- Without a digit there is no number to give up. -/
theorem scanNumber_of_head {p : List Byte} (h : isDigit (p.headD 0) = false) (limit : ℕ) :
    superfluousZero p = false ∧ scanNumber limit p 0 0 = some (0, 0) := by
  constructor
  · cases hz : superfluousZero p with
    | false => rfl
    | true => exact absurd ((isDigit_of_superfluousZero hz).symm.trans h) Bool.noConfusion
  · cases p with
    | nil => rfl
    | cons b p =>
      rw [List.headD_cons] at h
      rw [scanNumber, h, if_neg Bool.false_ne_true]

/-- A sign that no digit follows is lost. -/
theorem parseNumber_of_sign {m m' : Machine State Store}
    (hsign : (parseOneCharToken 'n' : Parser w Bool) m = .ok (true, m'))
    (hdigit : isDigit (w.byteAt m'.state.mangledCur) = false) :
    parseNumber (w := w) true m = .ok (none, m') := by
  rw [← headD_rest] at hdigit
  obtain ⟨hzero, hscan⟩ := scanNumber_of_head hdigit kMaxNegative
  rw [parseNumber, saving_run, bind_ok hsign, saving_run]
  simp only [hzero, Bool.false_eq_true, if_false, Bool.not_true, if_true, hscan, bne_self_eq_false]
  rfl

instance : Restores (succeeds (parseNumber (w := w) false)) := by
  refine ⟨fun m m' h => ?_⟩
  rcases parseNumber_eq_none (succeeds_eq_false_iff.mp h) with h | ⟨hout, -⟩
  · exact h
  · cases hout

/-- Without an output parameter, the bounded numbers look before they call `parseNumber`. -/
theorem restores_lookahead {p : Byte → Bool} :
    Restores (succeeds (do if p (← peek 0) then return none else parseNumber (w := w) false)) := by
  refine ⟨fun m m' h => ?_⟩
  obtain ⟨c, m₁, hpeek, h⟩ := bind_eq_ok (succeeds_eq_false_iff.mp h)
  have hm₁ : m₁.state = m.state := Observes.state_eq m c m₁ hpeek
  split at h
  · cases h
    exact hm₁
  · rcases parseNumber_eq_none h with h | ⟨hout, -⟩
    · exact h.trans hm₁
    · cases hout

/-- With one, they save the state and put it back unless the number is within the bound. -/
theorem restores_bounded {f : Parser w (Option ℤ)} {p : ℤ → Prop} [DecidablePred p] :
    Restores (succeeds (saving fun copy => do
      match ← f with
      | some number =>
        if p number then return some number
        let _ ← modify fun _ => copy
        return none
      | none =>
        let _ ← modify fun _ => copy
        return none)) := by
  refine ⟨fun m m' h => ?_⟩
  replace h := succeeds_eq_false_iff.mp h
  rw [saving_run] at h
  obtain ⟨number, m₁, -, h⟩ := bind_eq_ok h
  cases number with
  | none =>
    cases h
    rfl
  | some number =>
    dsimp only at h
    split at h
    · cases h
    · cases h
      rfl

instance (numberOut : Bool) : Restores (succeeds (parseNonNegativeNumber (w := w) numberOut)) := by
  cases numberOut with
  | false => exact restores_lookahead (p := fun c => c == 'n'.toUInt8)
  | true => exact restores_bounded

instance (numberOut : Bool) : Restores (succeeds (parsePositiveNumber (w := w) numberOut)) := by
  cases numberOut with
  | false => exact restores_lookahead (p := fun c => c == '0'.toUInt8 || c == 'n'.toUInt8)
  | true => exact restores_bounded

instance : Restores (parseFloatNumber (w := w)) := by
  unfold parseFloatNumber
  infer_instance

instance : Restores (parseSeqId (w := w)) := by
  unfold parseSeqId
  infer_instance

/-- An identifier is written only once its bytes are known to be there. -/
instance (length : ℤ) : Restores (parseIdentifier (w := w) length) := by
  unfold parseIdentifier
  infer_instance

/-- None of the qualifiers is there. -/
instance : Restores (parseCVQualifiers (w := w)) := by
  refine ⟨fun m m' h => ?_⟩
  obtain ⟨r, m₁, hr, h⟩ := bind_eq_ok h
  obtain ⟨v, m₂, hv, h⟩ := bind_eq_ok h
  obtain ⟨k, m₃, hk, h⟩ := bind_eq_ok h
  rw [pure_run, Except.ok.injEq, Prod.mk.injEq, Bool.or_eq_false_iff, Bool.or_eq_false_iff] at h
  obtain ⟨⟨⟨rfl, rfl⟩, rfl⟩, rfl⟩ := h
  have hr := restoresAt_parseOneCharToken m m₁ hr
  have hv := restoresAt_parseOneCharToken m₁ m₂ hv
  have hk := restoresAt_parseOneCharToken m₂ m₃ hk
  exact (hk.trans hv).trans hr

/-! ### The grammar -/

instance : Restores (parseSourceName (w := w)) := by
  unfold parseSourceName
  infer_instance

instance : Restores (parseDiscriminator (w := w)) := by
  unfold parseDiscriminator
  infer_instance

instance : Restores (parseLocalSourceName (w := w)) := by
  unfold parseLocalSourceName
  infer_instance

instance : Restores (parseAbiTags (w := w)) := by
  unfold parseAbiTags
  infer_instance

instance : Restores (parseNVOffset (w := w)) := by
  unfold parseNVOffset
  infer_instance

instance : Restores (parseVOffset (w := w)) := by
  unfold parseVOffset
  infer_instance

instance : Restores (parseCallOffset (w := w)) := by
  unfold parseCallOffset
  infer_instance

instance : Restores (parseTemplateParam (w := w)) := by
  unfold parseTemplateParam
  infer_instance

instance : Observes (findSubstitution (w := w)) := by
  unfold findSubstitution
  infer_instance

instance : Restores (parseSubstitution (w := w)) := by
  unfold parseSubstitution
  infer_instance

instance : Restores (parseTemplateTemplateParam (w := w)) := by
  unfold parseTemplateTemplateParam
  infer_instance

instance : Observes (findOperator (w := w)) := by
  unfold findOperator
  infer_instance

instance (first : Char) (seconds : String) : Observes (atTwoChars (w := w) first seconds) := by
  unfold atTwoChars
  infer_instance

instance : Observes (findBuiltinType (w := w)) := by
  unfold findBuiltinType
  infer_instance

section Recursive

/-- The recursive parse functions restore the state. -/
class ForwardRestores (w : CString) [Forward w] : Prop where
  parseEncoding : Restores (Forward.parseEncoding (w := w))
  parseName : Restores (Forward.parseName (w := w))
  parseNestedName : Restores (Forward.parseNestedName (w := w))
  parsePrefix : Restores (Forward.parsePrefix (w := w))
  parseType : Restores (Forward.parseType (w := w))
  parseTemplateArg : Restores (Forward.parseTemplateArg (w := w))
  parseBracedExpression : Restores (Forward.parseBracedExpression (w := w))
  parseExpression : Restores (Forward.parseExpression (w := w))
  parseLocalName : Restores (Forward.parseLocalName (w := w))

attribute [instance] ForwardRestores.parseEncoding ForwardRestores.parseName
  ForwardRestores.parseNestedName ForwardRestores.parsePrefix ForwardRestores.parseType
  ForwardRestores.parseTemplateArg ForwardRestores.parseBracedExpression
  ForwardRestores.parseExpression ForwardRestores.parseLocalName

variable [Forward w] [ForwardRestores w]

instance : Restores (parseOperatorName (w := w)) := by
  unfold parseOperatorName
  infer_instance

instance : Restores (parseCtorDtorName (w := w)) := by
  unfold parseCtorDtorName
  infer_instance

instance : Restores (parseUnnamedTypeName (w := w)) := by
  unfold parseUnnamedTypeName
  infer_instance

instance : Restores (parseStructuredBindingName (w := w)) := by
  unfold parseStructuredBindingName
  infer_instance

instance : Restores (parseUnqualifiedName (w := w)) := by
  unfold parseUnqualifiedName
  infer_instance

instance : Restores (parseUnscopedName (w := w)) := by
  unfold parseUnscopedName
  infer_instance

instance : Restores (parseUnscopedTemplateName (w := w)) := by
  unfold parseUnscopedTemplateName
  infer_instance

instance : Restores (parseRequiresClause (w := w)) := by
  unfold parseRequiresClause
  infer_instance

instance : Restores (parseTemplateArgs (w := w)) := by
  unfold parseTemplateArgs
  infer_instance

instance : Restores (parseBareFunctionType (w := w)) := by
  unfold parseBareFunctionType
  infer_instance

instance : Restores (parseExceptionSpec (w := w)) := by
  unfold parseExceptionSpec
  infer_instance

instance : Restores (parseSpecialName (w := w)) := by
  unfold parseSpecialName
  infer_instance

instance : Restores (parseBuiltinType (w := w)) := by
  unfold parseBuiltinType
  infer_instance

instance : Restores (parseFunctionType (w := w)) := by
  unfold parseFunctionType
  infer_instance

instance : Restores (parseClassEnumType (w := w)) := by
  unfold parseClassEnumType
  infer_instance

instance : Restores (parseArrayType (w := w)) := by
  unfold parseArrayType
  infer_instance

instance : Restores (parsePointerToMemberType (w := w)) := by
  unfold parsePointerToMemberType
  infer_instance

instance : Restores (parseType (w := w)) := by
  unfold parseType
  infer_instance

instance : Restores (parseEncoding (w := w)) := by
  unfold parseEncoding
  infer_instance

instance : Restores (parseName (w := w)) := by
  unfold parseName
  infer_instance

instance : Restores (parseNestedName (w := w)) := by
  unfold parseNestedName
  infer_instance

instance : Restores (parsePrefix (w := w)) := by
  unfold parsePrefix
  infer_instance

instance : Restores (parseLocalName (w := w)) := by
  unfold parseLocalName
  infer_instance

instance : Restores (parseFunctionParam (w := w)) := by
  unfold parseFunctionParam
  infer_instance

instance : Restores (parseSimpleId (w := w)) := by
  unfold parseSimpleId
  infer_instance

instance : Restores (parseUnresolvedType (w := w)) := by
  unfold parseUnresolvedType
  infer_instance

instance : Restores (parseBaseUnresolvedName (w := w)) := by
  unfold parseBaseUnresolvedName
  infer_instance

instance : Restores (parseUnresolvedName (w := w)) := by
  unfold parseUnresolvedName
  infer_instance

instance : Restores (parseBracedExpression (w := w)) := by
  unfold parseBracedExpression
  infer_instance

instance : Restores (parseRequiresExpression (w := w)) := by
  unfold parseRequiresExpression
  infer_instance

instance (arity : OperatorArity) : Restores (parseOperatorNameWithArity (w := w) arity) := by
  unfold parseOperatorNameWithArity
  infer_instance

instance : Restores (parseExprPrimary (w := w)) := by
  unfold parseExprPrimary
  infer_instance

instance : Restores (parseExpression (w := w)) := by
  unfold parseExpression
  infer_instance

instance : Restores (parseTemplateArg (w := w)) := by
  unfold parseTemplateArg
  infer_instance

end Recursive

/-- The recursive parse functions restore the state at every fuel. -/
theorem restores_forwardAt (w : CString) : ∀ n, @ForwardRestores w (forwardAt w n)
  | 0 =>
    have hfault : Restores (fault .outOfFuel : Parser w Bool) :=
      Backtracking.Parser.restores_error Fault.outOfFuel
    @ForwardRestores.mk w (forwardAt w 0) hfault hfault hfault hfault hfault hfault hfault hfault
      hfault
  | n + 1 =>
    letI := forwardAt w n
    haveI := restores_forwardAt w n
    @ForwardRestores.mk w (forwardAt w (n + 1))
      (inferInstanceAs (Restores (parseEncoding (w := w))))
      (inferInstanceAs (Restores (parseName (w := w))))
      (inferInstanceAs (Restores (parseNestedName (w := w))))
      (inferInstanceAs (Restores (parsePrefix (w := w))))
      (inferInstanceAs (Restores (parseType (w := w))))
      (inferInstanceAs (Restores (parseTemplateArg (w := w))))
      (inferInstanceAs (Restores (parseBracedExpression (w := w))))
      (inferInstanceAs (Restores (parseExpression (w := w))))
      (inferInstanceAs (Restores (parseLocalName (w := w))))

end Demangle

end NgLog
