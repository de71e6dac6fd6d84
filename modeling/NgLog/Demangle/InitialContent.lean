import NgLog.Demangle.Safety
import NgLog.Support.Commuting

/-!
# What the caller has left in the buffer

The demangler reads back only what it has written itself. So what it does depends on the mangled
name and the size of the buffer, and not on what the caller has left in it: runs on two buffers of
one size make the same writes, in the same order, and keep the same of them.

A parse function is `Blind` if it commutes with changing the bytes that have not been written. It is
found by instance resolution along the grammar, as in the closure.

## Main definitions

* `fill` — the buffer with other bytes where none has been written
* `Blind` — a parse function that does not see these bytes

## Main results

* `blind_forwardAt` — the recursive parse functions are blind, at every fuel
* `demangle_fill` — the run on another buffer, and the same writes whatever was in the buffer
  (`demangle_sameWrites`)
* `demangle_contents` — the result and the buffer depend on the name and the size alone
-/

namespace NgLog

namespace Demangle

open Backtracking (Machine)
open Backtracking.Parser (Commutes mapResult commutes_pure commutes_bind commutes_saving
  commutes_modify commutes_ite commutes_test commutes_and commutes_or commutes_attempt
  commutes_branch commutes_attemptTwice commutes_optional commutes_zeroOrMore commutes_repeatUntil)

variable {w : CString} {α β : Type} {old : ℕ → Byte}

/-- The buffer with other bytes where none has been written. -/
def fill (old : ℕ → Byte) (store : Store) : Store :=
  { store with out := store.out.mapIdx fun i cell => if cell.written then cell else ⟨old i, false⟩ }

/-- Bytes that have not been written make no difference to a parse function. -/
abbrev Blind (old : ℕ → Byte) (f : Parser w α) : Prop := Commutes (fill old) f

/-! ### The combinators -/

section Instances

variable {f g c : Parser w Bool}

instance (a : α) : Blind old (pure a : Parser w α) := commutes_pure a

instance {f : Parser w α} {k : α → Parser w β} [hf : Blind old f] [hk : ∀ a, Blind old (k a)] :
    Blind old (f >>= k : Parser w β) := commutes_bind hf hk

theorem blind_saving {k : State → Parser w α} (hk : ∀ state, Blind old (k state)) :
    Blind old (saving k) := commutes_saving hk

instance {k : State → Parser w α} [hk : ∀ state, Blind old (k state)] : Blind old (saving k) :=
  blind_saving hk

instance (g : State → State) : Blind old (modify g : Parser w Bool) := commutes_modify g

instance {p : Prop} [Decidable p] {f g : Parser w α} [hf : Blind old f] [hg : Blind old g] :
    Blind old (if p then f else g : Parser w α) := commutes_ite hf hg

instance [hf : Blind old f] [hg : Blind old g] : Blind old (f <&&> g : Parser w Bool) :=
  commutes_and hf hg

instance [hf : Blind old f] [hg : Blind old g] : Blind old (f <||> g : Parser w Bool) :=
  commutes_or hf hg

instance [hf : Blind old f] : Blind old (attempt f) := commutes_attempt hf

instance [hc : Blind old c] [hf : Blind old f] [hg : Blind old g] :
    Blind old (attemptTwice c f g) := commutes_attemptTwice hc hf hg

instance [hc : Blind old c] [hf : Blind old f] [hg : Blind old g] : Blind old (branch c f g) :=
  commutes_branch hc hf hg

instance [hf : Blind old f] : Blind old (optional f) := commutes_optional hf

instance [hf : Blind old f] : Blind old (zeroOrMore f) := commutes_zeroOrMore hf fun _ => rfl

instance [hf : Blind old f] : Blind old (oneOrMore f) :=
  inferInstanceAs (Blind old (f <&&> zeroOrMore f : Parser w Bool))

instance (e : Fault) : Blind old (fault e : Parser w α) := ⟨fun _ => rfl⟩

/-! ### Reading the name -/

instance (offset : ℕ) : Blind old (peek (w := w) offset) :=
  commutes_test (fun _ => Iff.rfl) ⟨fun _ => rfl⟩ ⟨fun _ => rfl⟩

instance (count : ℕ) : Blind old (advance (w := w) count) :=
  commutes_test (fun _ => Iff.rfl) ⟨fun _ => rfl⟩ ⟨fun _ => rfl⟩

instance (text : String) : Blind old (strPrefix (w := w) text) := ⟨fun _ => rfl⟩

instance (count : ℕ) : Blind old (atLeastNumCharsRemaining (w := w) count) := ⟨fun _ => rfl⟩

instance (stops : List Byte) (least : Bool) [hf : Blind old f] :
    Blind old (parseUntil stops least f) :=
  have hstop : Blind old (do return stops.contains (← peek 0) : Parser w Bool) := inferInstance
  commutes_repeatUntil hstop hf fun _ => rfl

instance (t : Char) (h : t.toUInt8 ≠ 0) : Blind old (parseOneCharToken (w := w) t h) := by
  rw [parseOneCharToken]
  infer_instance

instance (t : String) (h : (bytes t).length = 2) : Blind old (parseTwoCharToken (w := w) t h) := by
  rw [parseTwoCharToken]
  infer_instance

instance (t : String) : Blind old (parseCharClass (w := w) t) := by
  rw [parseCharClass]
  infer_instance

instance (level : Level) : Blind old (enterLevel (w := w) level) :=
  commutes_test (fun _ => Iff.rfl) ⟨fun _ => rfl⟩ ⟨fun _ => rfl⟩

instance (level : Level) : Blind old (leaveLevel (w := w) level) :=
  commutes_test (fun _ => Iff.rfl) ⟨fun _ => rfl⟩ ⟨fun _ => rfl⟩

instance (level : Level) [hf : Blind old f] : Blind old (guardLevel level f) := by
  rw [guardLevel]
  infer_instance

instance : Blind old (countStep (w := w)) :=
  commutes_test (fun _ => Iff.rfl) ⟨fun _ => rfl⟩ ⟨fun _ => rfl⟩

instance [hf : Blind old f] : Blind old (guardDepth f) := by
  rw [guardDepth]
  infer_instance

/-! ### The output -/

/-- Only what has been written can be read. -/
instance (i : ℕ) : Blind old (readOut (w := w) i) := by
  refine ⟨fun m => ?_⟩
  rw [readOut, readOut, Machine.mapStore_store, fill, List.getElem?_mapIdx]
  rcases m.store.out[i]? with _ | ⟨byte, _ | _⟩
  · rfl
  · rfl
  · rfl

theorem fill_length (store : Store) : (fill old store).out.length = store.out.length :=
  List.length_mapIdx

theorem wrote_fill (m : Machine State Store) (i : ℕ) (op : OutputOp) :
    wrote (m.mapStore (fill old)) i op = (wrote m i op).mapStore (fill old) := by
  simp only [wrote, Machine.mapStore, fill, List.mapIdx_set, if_true]

/-- A write is what makes a byte be seen. -/
instance (i : ℕ) (op : OutputOp) : Blind old (writeOut (w := w) i op) := by
  refine commutes_test (fun m => ?_) ⟨fun m => ?_⟩ ⟨fun _ => rfl⟩
  · rw [Machine.mapStore_store, fill_length]
  · exact congrArg (fun m' => Except.ok ((), m')) (wrote_fill m i op)

instance (str : Text) (i : ℕ) : Blind old (str.get i : Parser w Byte) := by
  cases str with
  | bytes text =>
    rw [Text.get]
    split
    · exact commutes_pure _
    · infer_instance
  | out start length =>
    rw [Text.get]
    infer_instance

end Instances

theorem blind_appendLoop (str : Text) : ∀ n i, Blind old (appendLoop (w := w) str n i) := by
  intro n
  induction n with
  | zero => exact fun _ => commutes_pure ()
  | succ n ih =>
    intro i
    have hnext := ih (i + 1)
    have hround : Blind old (saving fun state => do
        let b ← str.get i
        writeOut state.outCur (.put b)
        let _ ← modify fun state => { state with outCur := state.outCur + 1 }
        appendLoop str n (i + 1) : Parser w Unit) := inferInstance
    refine commutes_test (fun m => ?_) ⟨hround.run_mapStore⟩ ⟨fun _ => rfl⟩
    rw [Machine.mapStore_store, Machine.mapStore_state, fill_length]

instance (str : Text) (n i : ℕ) : Blind old (appendLoop (w := w) str n i) :=
  blind_appendLoop str n i

instance (str : Text) : Blind old (append (w := w) str) := by
  rw [append]
  infer_instance

instance (str : Text) : Blind old (separateAngles (w := w) str) := by
  rw [separateAngles]
  infer_instance

instance (str : Text) : Blind old (appendName (w := w) str) := by
  rw [appendName]
  infer_instance

instance (str : Text) : Blind old (maybeAppendWithLength (w := w) str) := by
  rw [maybeAppendWithLength]
  infer_instance

instance (t : String) (h : 0 ∉ bytes t) : Blind old (maybeAppend (w := w) t h) := by
  rw [maybeAppend]
  infer_instance

instance : Blind old (maybeAppendSeparator (w := w)) := by
  rw [maybeAppendSeparator]
  infer_instance

instance (before : ℕ) : Blind old (maybeCancelLastSeparator (w := w) before) := by
  rw [maybeCancelLastSeparator]
  infer_instance

theorem blind_appendAll : ∀ texts : List String, Blind old (appendAll (w := w) texts)
  | [] => commutes_pure true
  | text :: texts =>
    have := blind_appendAll texts
    inferInstanceAs (Blind old (maybeAppendWithLength (.bytes (bytes text)) <&&>
      appendAll texts : Parser w Bool))

instance (texts : List String) : Blind old (appendAll (w := w) texts) := blind_appendAll texts

/-! ### The control fields -/

instance : Blind old (enterNestedName (w := w)) := by
  rw [enterNestedName]
  infer_instance

instance (value : Int16) : Blind old (leaveNestedName (w := w) value) := by
  rw [leaveNestedName]
  infer_instance

instance : Blind old (disableAppend (w := w)) := by
  rw [disableAppend]
  infer_instance

instance (value : Bool) : Blind old (restoreAppend (w := w) value) := by
  rw [restoreAppend]
  infer_instance

instance : Blind old (maybeIncreaseNestLevel (w := w)) := by
  rw [maybeIncreaseNestLevel]
  infer_instance

instance (value : Byte) : Blind old (setPendingRefQualifier (w := w) value) := by
  rw [setPendingRefQualifier]
  infer_instance

/-! ### Numbers and identifiers -/

instance {f : Parser w (Option α)} [hf : Blind old f] : Blind old (succeeds f) := by
  rw [succeeds]
  infer_instance

instance {found : Parser w (Option α)} {length : α → ℕ} {texts : α → List String}
    [hf : Blind old found] : Blind old (acceptAbbrev found length texts) :=
  commutes_bind hf fun p => by
    cases p with
    | none => exact commutes_pure false
    | some p =>
      exact inferInstanceAs
        (Blind old (appendAll (texts p) <&&> advance (length p) : Parser w Bool))

instance (numberOut : Bool) : Blind old (parseNumber (w := w) numberOut) := by
  refine blind_saving fun copy => commutes_bind inferInstance fun negative =>
    blind_saving fun state => commutes_ite inferInstance (commutes_ite inferInstance ?_)
  generalize scanNumber _ _ 0 0 = scanned
  cases scanned with
  | none => infer_instance
  | some scanned => infer_instance

/-- A number within a bound, or the state put back. -/
theorem blind_bounded {f : Parser w (Option ℤ)} {p : ℤ → Prop} [DecidablePred p]
    (hf : Blind old f) : Blind old (saving fun copy => do
      match ← f with
      | some number =>
        if p number then return some number
        let _ ← modify fun _ => copy
        return none
      | none =>
        let _ ← modify fun _ => copy
        return none : Parser w (Option ℤ)) :=
  blind_saving fun copy => commutes_bind hf fun number => by
    cases number with
    | none => infer_instance
    | some number => infer_instance

instance (numberOut : Bool) : Blind old (parseNonNegativeNumber (w := w) numberOut) :=
  commutes_ite inferInstance (blind_bounded inferInstance)

instance (numberOut : Bool) : Blind old (parsePositiveNumber (w := w) numberOut) :=
  commutes_ite inferInstance (blind_bounded inferInstance)

instance (cond : ℤ → Bool) : Blind old (parseNumberSuch (w := w) cond) :=
  commutes_bind inferInstance fun number => by
    cases number with
    | none => exact commutes_pure false
    | some number => exact commutes_pure (cond number)

instance : Blind old (parseFloatNumber (w := w)) := by
  rw [parseFloatNumber]
  infer_instance

instance : Blind old (parseSeqId (w := w)) := by
  rw [parseSeqId]
  infer_instance

instance (length : ℤ) : Blind old (identifierIsAnonymousNamespace (w := w) length) := by
  rw [identifierIsAnonymousNamespace]
  infer_instance

instance (length : ℤ) : Blind old (parseIdentifier (w := w) length) := by
  rw [parseIdentifier]
  infer_instance

instance : Blind old (parseSourceName (w := w)) :=
  commutes_attempt <| commutes_bind inferInstance fun number => by
    cases number with
    | none => exact commutes_pure false
    | some length => infer_instance

instance : Blind old (skipNonNegativeNumber (w := w)) := by
  rw [skipNonNegativeNumber]
  infer_instance

instance : Blind old (parseDiscriminator (w := w)) := by
  rw [parseDiscriminator]
  infer_instance

instance : Blind old (parseLocalSourceName (w := w)) := by
  rw [parseLocalSourceName]
  infer_instance

instance : Blind old (parseAbiTag (w := w)) := by
  rw [parseAbiTag]
  infer_instance

instance : Blind old (parseAbiTags (w := w)) := by
  rw [parseAbiTags]
  infer_instance

instance : Blind old (parseCVQualifiers (w := w)) := by
  rw [parseCVQualifiers]
  infer_instance

instance : Blind old (parseNVOffset (w := w)) := by
  rw [parseNVOffset]
  infer_instance

instance : Blind old (parseVOffset (w := w)) := by
  rw [parseVOffset]
  infer_instance

instance : Blind old (parseCallOffset (w := w)) := by
  rw [parseCallOffset]
  infer_instance

/-! ### The grammar -/

instance : Blind old (parseTemplateParam (w := w)) := by
  rw [parseTemplateParam]
  infer_instance

instance : Blind old (findSubstitution (w := w)) := by
  rw [findSubstitution]
  infer_instance

instance : Blind old (parseSubstitution (w := w)) := by
  rw [parseSubstitution]
  infer_instance

instance : Blind old (parseTemplateTemplateParam (w := w)) := by
  rw [parseTemplateTemplateParam]
  infer_instance

instance : Blind old (findOperator (w := w)) := by
  rw [findOperator]
  infer_instance

instance (first : Char) (seconds : String) : Blind old (atTwoChars (w := w) first seconds) := by
  rw [atTwoChars]
  infer_instance

instance : Blind old (atCloneSuffix (w := w)) := by
  rw [atCloneSuffix]
  infer_instance

instance : Blind old (hasPrevName (w := w)) := by
  rw [hasPrevName]
  infer_instance

instance (lead : List String) : Blind old (appendPrevName (w := w) lead) := by
  rw [appendPrevName]
  infer_instance

instance : Blind old (parseRefQualifier (w := w)) := by
  rw [parseRefQualifier]
  infer_instance

instance {f : Parser w Bool} [hf : Blind old f] : Blind old (separated f) := by
  rw [separated]
  infer_instance

section Recursive

/-- The recursive parse functions are blind. -/
class ForwardBlind (old : ℕ → Byte) (w : CString) [Forward w] : Prop where
  parseEncoding : Blind old (Forward.parseEncoding (w := w))
  parseName : Blind old (Forward.parseName (w := w))
  parseNestedName : Blind old (Forward.parseNestedName (w := w))
  parsePrefix : Blind old (Forward.parsePrefix (w := w))
  parseType : Blind old (Forward.parseType (w := w))
  parseTemplateArg : Blind old (Forward.parseTemplateArg (w := w))
  parseBracedExpression : Blind old (Forward.parseBracedExpression (w := w))
  parseExpression : Blind old (Forward.parseExpression (w := w))
  parseLocalName : Blind old (Forward.parseLocalName (w := w))

attribute [instance] ForwardBlind.parseEncoding ForwardBlind.parseName
  ForwardBlind.parseNestedName ForwardBlind.parsePrefix ForwardBlind.parseType
  ForwardBlind.parseTemplateArg ForwardBlind.parseBracedExpression ForwardBlind.parseExpression
  ForwardBlind.parseLocalName

variable [Forward w] [ForwardBlind old w]

instance : Blind old (parseMangledName (w := w)) := by
  rw [parseMangledName]
  infer_instance

instance : Blind old (parseOperatorName (w := w)) := by
  rw [parseOperatorName]
  infer_instance

instance : Blind old (parseCtorDtorName (w := w)) := by
  rw [parseCtorDtorName]
  infer_instance

instance : Blind old (parseUnnamedTypeName (w := w)) := by
  rw [parseUnnamedTypeName]
  infer_instance

instance : Blind old (parseStructuredBindingName (w := w)) := by
  rw [parseStructuredBindingName]
  infer_instance

instance : Blind old (parseUnqualifiedName (w := w)) := by
  rw [parseUnqualifiedName]
  infer_instance

instance : Blind old (parseUnscopedName (w := w)) := by
  rw [parseUnscopedName]
  infer_instance

instance : Blind old (parseUnscopedTemplateName (w := w)) := by
  rw [parseUnscopedTemplateName]
  infer_instance

instance : Blind old (parseRequiresClause (w := w)) := by
  rw [parseRequiresClause]
  infer_instance

instance : Blind old (parseTemplateArgs (w := w)) := by
  rw [parseTemplateArgs]
  infer_instance

instance : Blind old (parseBareFunctionType (w := w)) := by
  rw [parseBareFunctionType]
  infer_instance

instance : Blind old (parseExceptionSpec (w := w)) := by
  rw [parseExceptionSpec]
  infer_instance

instance : Blind old (parseSpecialName (w := w)) := by
  rw [parseSpecialName]
  infer_instance

instance : Blind old (findBuiltinType (w := w)) := by
  rw [findBuiltinType]
  infer_instance

instance : Blind old (parseBuiltinType (w := w)) := by
  rw [parseBuiltinType]
  infer_instance

instance : Blind old (parseFunctionType (w := w)) := by
  rw [parseFunctionType]
  infer_instance

instance : Blind old (parseClassEnumType (w := w)) := by
  rw [parseClassEnumType]
  infer_instance

instance : Blind old (parseArrayType (w := w)) := by
  rw [parseArrayType]
  infer_instance

instance : Blind old (parsePointerToMemberType (w := w)) := by
  rw [parsePointerToMemberType]
  infer_instance

instance : Blind old (parseType (w := w)) := by
  rw [parseType]
  infer_instance

instance : Blind old (appendRefQualifier (w := w)) := by
  rw [appendRefQualifier]
  infer_instance

instance : Blind old (parseEncoding (w := w)) := by
  rw [parseEncoding]
  infer_instance

instance : Blind old (parseName (w := w)) := by
  rw [parseName]
  infer_instance

instance : Blind old (parseNestedName (w := w)) := by
  rw [parseNestedName]
  infer_instance

instance (hasSomething : Bool) : Blind old (parsePrefixItem (w := w) hasSomething) := by
  rw [parsePrefixItem]
  infer_instance

instance : Blind old (parsePrefix (w := w)) := by
  rw [parsePrefix]
  infer_instance

instance : Blind old (parseLocalName (w := w)) := by
  rw [parseLocalName]
  infer_instance

instance : Blind old (parseFunctionParam (w := w)) := by
  rw [parseFunctionParam]
  infer_instance

instance : Blind old (parseSimpleId (w := w)) := by
  rw [parseSimpleId]
  infer_instance

instance : Blind old (parseUnresolvedType (w := w)) := by
  rw [parseUnresolvedType]
  infer_instance

instance : Blind old (parseBaseUnresolvedName (w := w)) := by
  rw [parseBaseUnresolvedName]
  infer_instance

instance : Blind old (parseUnresolvedName (w := w)) := by
  rw [parseUnresolvedName]
  infer_instance

instance : Blind old (parseBracedExpression (w := w)) := by
  rw [parseBracedExpression]
  infer_instance

instance (terminator : Char) (requireOne : Bool) :
    Blind old (parseExpressionSequence (w := w) terminator requireOne) := by
  rw [parseExpressionSequence]
  infer_instance

instance : Blind old (parseBracedExpressionSequence (w := w)) := by
  rw [parseBracedExpressionSequence]
  infer_instance

instance : Blind old (parseInitializer (w := w)) := by
  rw [parseInitializer]
  infer_instance

instance : Blind old (parseRequirement (w := w)) := by
  rw [parseRequirement]
  infer_instance

instance : Blind old (parseRequiresExpression (w := w)) := by
  rw [parseRequiresExpression]
  infer_instance

instance (arity : OperatorArity) : Blind old (parseOperatorNameWithArity (w := w) arity) := by
  rw [parseOperatorNameWithArity]
  infer_instance

instance : Blind old (parseExprPrimary (w := w)) := by
  rw [parseExprPrimary]
  infer_instance

set_option synthInstance.maxSize 1024 in
instance : Blind old (parseListedExpression (w := w)) := by
  rw [parseListedExpression]
  infer_instance

instance : Blind old (parseNamedExpression (w := w)) := by
  rw [parseNamedExpression]
  infer_instance

instance : Blind old (parseExpression (w := w)) := by
  rw [parseExpression]
  infer_instance

instance : Blind old (parseTemplateArg (w := w)) := by
  rw [parseTemplateArg]
  infer_instance

instance : Blind old (parseTopLevelMangledName (w := w)) := by
  rw [parseTopLevelMangledName]
  infer_instance

end Recursive

/-- The recursive parse functions are blind at every fuel. -/
theorem blind_forwardAt (old : ℕ → Byte) (w : CString) : ∀ n, @ForwardBlind old w (forwardAt w n)
  | 0 =>
    have hfault : Blind old (fault .outOfFuel : Parser w Bool) := inferInstance
    @ForwardBlind.mk old w (forwardAt w 0) hfault hfault hfault hfault hfault hfault hfault hfault
      hfault
  | n + 1 =>
    letI := forwardAt w n
    haveI := blind_forwardAt old w n
    @ForwardBlind.mk old w (forwardAt w (n + 1))
      (inferInstanceAs (Blind old (parseEncoding (w := w))))
      (inferInstanceAs (Blind old (parseName (w := w))))
      (inferInstanceAs (Blind old (parseNestedName (w := w))))
      (inferInstanceAs (Blind old (parsePrefix (w := w))))
      (inferInstanceAs (Blind old (parseType (w := w))))
      (inferInstanceAs (Blind old (parseTemplateArg (w := w))))
      (inferInstanceAs (Blind old (parseBracedExpression (w := w))))
      (inferInstanceAs (Blind old (parseExpression (w := w))))
      (inferInstanceAs (Blind old (parseLocalName (w := w))))

/-! ### The entry point -/

theorem initMachine_fill {out out' : List Byte} (h : out.length = out'.length) :
    initMachine out' = (initMachine out).mapStore (fill fun i => out'.getD i 0) := by
  have hcells : (out.map fun b => (⟨b, false⟩ : Cell)).mapIdx
      (fun i cell => if cell.written then cell else ⟨out'.getD i 0, false⟩) =
      out'.map fun b => ⟨b, false⟩ := by
    refine List.ext_getElem (by simpa using h) fun i hi hi' => ?_
    rw [List.getElem_mapIdx, List.getElem_map, List.getElem_map, if_neg Bool.false_ne_true,
      List.getD_eq_getElem?_getD, List.getElem?_eq_getElem (by simpa using hi'), Option.getD_some]
  rw [initMachine, initMachine, Machine.mapStore, fill, List.mapIdx_set, hcells]
  rfl

/-- On another buffer of the same size the run ends in the same way, but for the bytes that it has
not written: these are the other buffer's. -/
theorem demangle_fill (w : CString) {out out' : List Byte} (h : out.length = out'.length) :
    demangle w out' = mapResult (fill fun i => out'.getD i 0) (demangle w out) := by
  let _ := forwardAt w parseFuel
  have _ := blind_forwardAt (fun i => out'.getD i 0) w parseFuel
  have hrun : Blind (fun i => out'.getD i 0) (do
      if ← parseTopLevelMangledName then
        saving fun state => do
          if !state.overflowed then return true
          writeOut 0 .terminate
          return false
      else
        writeOut 0 .terminate
        return false : Parser w Bool) := inferInstance
  rw [demangle, demangle, ← h, initMachine_fill h]
  split
  · rfl
  · exact hrun.run_mapStore (initMachine out)

/-- Whatever the caller has left in the buffer, the same writes are made, and the same are kept. -/
theorem demangle_sameWrites {out out' : List Byte} (h : out.length = out'.length) {b : Bool}
    {m : Machine State Store} (hrun : demangle w out = .ok (b, m)) :
    ∃ m', demangle w out' = .ok (b, m') ∧ m'.state = m.state ∧ m'.store.ops = m.store.ops :=
  ⟨m.mapStore (fill fun i => out'.getD i 0), by rw [demangle_fill w h, hrun, mapResult], rfl, rfl⟩

/-- Refilling a run's buffer with what was there before changes nothing. -/
theorem fill_eq {out : List Byte} {b : Bool} {m : Machine State Store}
    (hrun : demangle w out = .ok (b, m)) : fill (fun i => out.getD i 0) m.store = m.store := by
  have hfill := demangle_fill w (Eq.refl out.length)
  rw [hrun, mapResult, Except.ok.injEq, Prod.mk.injEq] at hfill
  exact (congrArg Machine.store hfill.2).symm

/-- The run has changed no byte of the buffer but those that it has written. -/
theorem unwritten_eq {out : List Byte} {b : Bool} {m : Machine State Store}
    (hrun : demangle w out = .ok (b, m)) (hsize : (outBytes m).length = out.length) {i : ℕ}
    (hunwritten : ¬WrittenAt m.store.out i) : (outBytes m)[i]? = out[i]? := by
  rw [outBytes, List.length_map] at hsize
  by_cases hi : i < out.length
  · have hcell := List.getElem?_eq_getElem (hsize ▸ hi : i < m.store.out.length)
    have hfilled : m.store.out[i]? =
        (m.store.out[i]?).map fun cell => if cell.written then cell else ⟨out.getD i 0, false⟩ := by
      conv_lhs => rw [← fill_eq hrun, fill, List.getElem?_mapIdx]
    have hold : m.store.out[i].written = false := by
      cases hwritten : m.store.out[i].written with
      | false => rfl
      | true => exact absurd ⟨_, hcell, hwritten⟩ hunwritten
    rw [hcell, Option.map_some, hold, if_neg Bool.false_ne_true] at hfilled
    rw [outBytes, List.getElem?_map, hcell, hfilled, Option.map_some, List.getD_eq_getElem?_getD,
      List.getElem?_eq_getElem hi, Option.getD_some]
  · rw [outBytes, List.getElem?_eq_none (by rw [List.length_map]; omega),
      List.getElem?_eq_none (by omega)]

theorem writtenAt_fill {store : Store} {i : ℕ} :
    WrittenAt (fill old store).out i ↔ WrittenAt store.out i := by
  rw [WrittenAt, WrittenAt, fill, List.getElem?_mapIdx]
  rcases store.out[i]? with _ | ⟨byte, _ | _⟩
  · simp
  · simp
  · simp

/-- Every run ends, with a buffer of the caller's size. -/
theorem exists_run (w : CString) (out : List Byte) :
    ∃ accepted m, demangle w out = .ok (accepted, m) ∧ (outBytes m).length = out.length := by
  rcases Nat.eq_zero_or_pos out.length with hzero | hpos
  · exact ⟨false, initMachine out, if_pos hzero, by rw [outBytes, List.length_map,
      length_initMachine]⟩
  · have hfinished := always_finished w hpos
    rcases hrun : demangle w out with e | ⟨accepted, m⟩ <;> rw [hrun] at hfinished
    · exact hfinished.elim
    · exact ⟨accepted, m, rfl, hfinished.2.1⟩

/-- What `Demangle` does depends on the name and the size of the buffer alone. On two buffers of one
size it returns the same; each byte of them is then the same in both, or as it was in each. -/
theorem demangle_contents (w : CString) (out out' : List Byte) (h : out.length = out'.length) :
    ∃ accepted, ∃ m m' : Machine State Store,
      demangle w out = .ok (accepted, m) ∧ demangle w out' = .ok (accepted, m') ∧
      ∀ i : ℕ, (outBytes m)[i]? = (outBytes m')[i]? ∨
        (outBytes m)[i]? = out[i]? ∧ (outBytes m')[i]? = out'[i]? := by
  obtain ⟨accepted, m, hrun, hsize⟩ := exists_run w out
  have hrun' : demangle w out' =
      .ok (accepted, m.mapStore (fill fun i => out'.getD i 0)) := by
    rw [demangle_fill w h, hrun, mapResult]
  have hsize' : (outBytes (m.mapStore (fill fun i => out'.getD i 0))).length = out'.length := by
    rw [← h, ← hsize, outBytes, outBytes, List.length_map, List.length_map, Machine.mapStore_store,
      fill_length]
  refine ⟨accepted, m, _, hrun, hrun', fun i => ?_⟩
  by_cases hwritten : WrittenAt m.store.out i
  · obtain ⟨cell, hcell, hcellWritten⟩ := hwritten
    refine .inl ?_
    rw [outBytes, outBytes, List.getElem?_map, List.getElem?_map, Machine.mapStore_store, fill,
      List.getElem?_mapIdx, hcell, Option.map_some, Option.map_some, Option.map_some,
      if_pos hcellWritten]
  · exact .inr ⟨unwritten_eq hrun hsize hwritten,
      unwritten_eq hrun' hsize' (mt writtenAt_fill.mp hwritten)⟩

/-- The name `_ZNDtLDnEEE` has three bytes written and taken back; the fourth is the caller's. -/
theorem demangle_contents_fourth : [(1 : Byte), 1, 1, 1].length = [(2 : Byte), 2, 2, 2].length ∧
    ∃ accepted, ∃ m m' : Machine State Store,
      demangle (.ofString "_ZNDtLDnEEE") [1, 1, 1, 1] = .ok (accepted, m) ∧
      demangle (.ofString "_ZNDtLDnEEE") [2, 2, 2, 2] = .ok (accepted, m') ∧
      ∀ i : ℕ, (outBytes m)[i]? = (outBytes m')[i]? ∨
        (outBytes m)[i]? = [(1 : Byte), 1, 1, 1][i]? ∧
        (outBytes m')[i]? = [(2 : Byte), 2, 2, 2][i]? :=
  ⟨rfl, demangle_contents (.ofString "_ZNDtLDnEEE") [1, 1, 1, 1] [2, 2, 2, 2] rfl⟩

end Demangle

end NgLog
