import NgLog.Demangle.Declining
import NgLog.Demangle.Silence
import NgLog.Demangle.Stranding

/-!
# The separator that is taken back

An iteration of `ParsePrefix` appends `::` before it knows whether a component follows, and takes
two bytes back when none does. It decides so from the nest level, the mode and the length of the
output, not from whether it has appended a separator. The two agree as long as `skip_separator` is
clear: then the bytes taken back are the separator of the same iteration.

A lambda prints nothing. It sets `skip_separator`, so that the component after it uses the separator
that stands in front of the lambda; and when no component comes after it, that separator, of an
earlier iteration, is the one to be taken back.

## Main definitions

* `Cancels` — an iteration finds no component and takes two bytes back
* `AppendsSeparator`, `TakesSeparatorOf` — the separator of an iteration, and that it is the one
  taken back
* `ReadsLambda`, `Lambdas` — iterations that read nothing but lambdas

## Main results

* `cancels_separator` — which separator is taken back
* `cuts_separator_of_lambda` — it is not always that of the same iteration
-/

namespace NgLog

namespace Demangle

open Backtracking (Machine)
open Backtracking.Parser (Declines NeverFails Restores and_eq_false_iff and_eq_true_iff
  or_eq_true_iff attempt_eq_true_iff bind_eq_ok)

variable {w : CString}

/-! ### Iterations of `ParsePrefix` -/

section Iterations

variable [Forward w]

/-- `ParseTemplateParam(state) || ParseSubstitution(state) || ParseUnscopedName(state)`. -/
def prefixComponent : Parser w Bool :=
  parseTemplateParam <||> parseSubstitution <||> parseUnscopedName

theorem parsePrefixItem_eq (hasSomething : Bool) : parsePrefixItem (w := w) hasSomething =
    ((separated prefixComponent <&&> maybeIncreaseNestLevel) <||>
      (pure hasSomething <&&> parseTemplateArgs) <||>
      attempt (parseOneCharToken 'M') <||>
      attempt (parseOneCharToken 'D' <&&> (parseOneCharToken 't' <||> parseOneCharToken 'T') <&&>
        Forward.parseExpression <&&> parseOneCharToken 'E')) := rfl

/-- The iteration that begins at `m` finds no component, and `MaybeCancelLastSeparator`, called at
`before`, takes two bytes back. -/
structure Cancels (m before : Machine State Store) : Prop where
  none : (maybeAppendSeparator <&&> prefixComponent : Parser w Bool) m = .ok (false, before)
  taken : ∃ after, maybeCancelLastSeparator (w := w) m.state.outCur before = .ok ((), after) ∧
    after.state.outCur + 2 = before.state.outCur

/-- The iteration that begins at `m` reads a lambda. -/
structure ReadsLambda (m m' : Machine State Store) : Prop where
  text : bytes "Ul" <+: rest w m.state
  run : (separated prefixComponent <&&> maybeIncreaseNestLevel : Parser w Bool) m = .ok (true, m')

/-- The iterations from `m₀` on read lambdas only, the first of them after a separator of its
own. -/
inductive Lambdas (m₀ : Machine State Store) : Machine State Store → Prop
  | first {m} (hskip : m₀.state.skipSeparator = false) (hread : ReadsLambda (w := w) m₀ m) :
      Lambdas m₀ m
  | next {m m'} (hbefore : Lambdas m₀ m) (hread : ReadsLambda (w := w) m m') : Lambdas m₀ m'

end Iterations

/-- `MaybeAppendSeparator`, called at `m`, appends the two bytes of `::` and leaves `m₁`. -/
structure AppendsSeparator (w : CString) (m m₁ : Machine State Store) : Prop where
  run : maybeAppendSeparator (w := w) m = .ok (true, m₁)
  outCur : m₁.state.outCur = m.state.outCur + 2
  out : ∀ i < 2, m₁.store.out[m.state.outCur + i]? = some ⟨':'.toUInt8, true⟩
  kept : ∃ writes, writes.map Write.op = [.terminate, .put ':'.toUInt8, .put ':'.toUInt8] ∧
    m₁.state.kept = writes ++ m.state.kept

/-- The last two bytes at `before` are the `::` that the iteration that began at `m` appended:
the text of the derivation ends there, and nothing has been added to it since. -/
def TakesSeparatorOf (w : CString) (m before : Machine State Store) : Prop :=
  ∃ m₁, AppendsSeparator w m m₁ ∧ before.state.outCur = m₁.state.outCur ∧
    before.state.kept = m₁.state.kept

/-! ### What `MaybeAppendSeparator` does -/

theorem maybeAppendSeparator_skip {m : Machine State Store} (h : m.state.skipSeparator = true) :
    maybeAppendSeparator (w := w) m =
      .ok (true, ⟨{ m.state with skipSeparator := false }, m.store⟩) := by
  rw [maybeAppendSeparator, saving_run, h]
  rfl

theorem get_separator {i : ℕ} (hi : i < 2) (m : Machine State Store) :
    (Text.bytes (bytes "::")).get (w := w) i m = .ok (':'.toUInt8, m) := by
  have hlen : (bytes "::").length = 2 := by decide
  rw [get_bytes (hlen.symm ▸ hi)]
  have hbytes : ∀ b ∈ bytes "::", b = ':'.toUInt8 := by decide +kernel
  rw [hbytes _ (List.getElem_mem _)]

/-- `Append` of the separator, when the buffer does not overflow. -/
theorem append_separator {m m₁ : Machine State Store}
    (h : append (w := w) (.bytes (bytes "::")) m = .ok ((), m₁))
    (ho : m₁.state.overflowed = false) :
    m.state.outCur + 2 < m.store.out.length ∧
      m₁ = terminated (emitted (emitted m ':'.toUInt8) ':'.toUInt8) := by
  have hlen : (Text.bytes (bytes "::")).length = 2 := by decide
  have hoverflow {m' : Machine State Store}
      (hloop : appendLoop (w := w) (.bytes (bytes "::")) 2 0 m = .ok ((), overflown m')) :
      False := by
    rw [append_run (hlen ▸ hloop),
      if_pos (show (overflown m').state.overflowed = true from rfl)] at h
    cases h
    cases ho
  by_cases hroom : m.store.out.length - m.state.outCur > 1
  · have hfirst := appendLoop_step (n := 1) hroom (get_separator (w := w) Nat.zero_lt_two m)
    let m' := emitted m ':'.toUInt8
    by_cases hroom' : m'.store.out.length - m'.state.outCur > 1
    · have hsecond := appendLoop_step (n := 0) hroom' (get_separator (w := w) Nat.one_lt_two m')
      have hloop : appendLoop (w := w) (.bytes (bytes "::")) 2 0 m =
          .ok ((), emitted m' ':'.toUInt8) := hfirst.trans hsecond
      rw [append_run (hlen ▸ hloop)] at h
      split at h
      · rename_i hover
        cases h
        exact absurd (ho.symm.trans hover) Bool.noConfusion
      · split at h
        · rename_i hlt
          cases h
          simp only [m', emitted, wrote, List.length_set] at hlt
          exact ⟨hlt, rfl⟩
        · cases h
    · exact (hoverflow (hfirst.trans (appendLoop_full hroom'))).elim
  · exact (hoverflow (appendLoop_full hroom)).elim

/-- Two bytes emitted, and a terminator behind them. -/
theorem out_emitted_twice {m : Machine State Store} (b : Byte)
    (hlt : m.state.outCur + 2 < m.store.out.length) {i : ℕ} (hi : i < 2) :
    (terminated (emitted (emitted m b) b)).store.out[m.state.outCur + i]? = some ⟨b, true⟩ := by
  simp only [terminated, emitted, wrote, OutputOp.byte]
  rw [List.getElem?_set_ne (by omega)]
  rcases Nat.lt_succ_iff_lt_or_eq.mp hi with hzero | rfl
  · rw [List.getElem?_set_ne (by omega), show m.state.outCur + i = m.state.outCur by omega]
    exact List.getElem?_set_self (by omega)
  · exact List.getElem?_set_self (by rw [List.length_set]; omega)

/-- Within a nested name and with the output switched on, the separator is appended. -/
theorem appendsSeparator_of_run {m m₁ : Machine State Store} {b : Bool}
    (h : maybeAppendSeparator (w := w) m = .ok (b, m₁)) (ho : m₁.state.overflowed = false)
    (hskip : m.state.skipSeparator = false) (hnest : 1 ≤ m.state.nestLevel)
    (happend : m.state.append = true) :
    b = true ∧ m₁.state.append = true ∧ AppendsSeparator w m m₁ := by
  have hrun := h
  have hlen : (Text.bytes (bytes "::")).length > 0 := by decide
  rw [maybeAppendSeparator, saving_run, hskip, if_neg Bool.false_ne_true, if_pos hnest, maybeAppend,
    maybeAppendWithLength, saving_run, happend, decide_eq_true hlen, Bool.and_self, if_pos rfl] at h
  have hangles : separateAngles (w := w) (.bytes (bytes "::")) m = .ok ((), m) := by
    rw [separateAngles_run (get_separator Nat.zero_lt_two m)]
    exact if_neg fun hlt => absurd hlt.1 (by decide)
  rw [bind_ok hangles] at h
  rcases hname : append (w := w) (.bytes (bytes "::")) m with e | ⟨_, m'⟩
  · rw [bind_error (show appendName (w := w) (.bytes (bytes "::")) m = .error e from
      bind_error hname)] at h
    cases h
  · have hcolon : ¬(m'.state.overflowed = false ∧
        (isAlpha ':'.toUInt8 || ':'.toUInt8 == '_'.toUInt8) = true) :=
          fun h => absurd h.2 (by decide)
    rw [bind_ok (appendName_run hname (get_separator Nat.zero_lt_two m')), if_neg hcolon] at h
    cases h
    obtain ⟨hlt, rfl⟩ := append_separator hname ho
    exact ⟨rfl, happend, hrun, rfl, fun i hi => out_emitted_twice _ hlt hi, [_, _, _], rfl, rfl⟩

theorem maybeAppendSeparator_muted {m : Machine State Store} (hskip : m.state.skipSeparator = false)
    (h : m.state.append = false ∨ ¬1 ≤ m.state.nestLevel) :
    maybeAppendSeparator (w := w) m = .ok (true, m) := by
  rw [maybeAppendSeparator, saving_run, hskip, if_neg Bool.false_ne_true]
  split
  · rename_i hnest
    have happend := h.resolve_right (not_not_intro hnest)
    rw [maybeAppend, maybeAppendWithLength, saving_run, happend, Bool.false_and,
      if_neg Bool.false_ne_true]
    rfl
  · rfl

theorem mangledCur_of_separator {m m₁ : Machine State Store} {b : Bool}
    (hm : m.state.mangledCur ≤ w.length) (h : maybeAppendSeparator (w := w) m = .ok (b, m₁)) :
    m₁.state.mangledCur = m.state.mangledCur := by
  rw [maybeAppendSeparator, saving_run] at h
  split at h
  · cases h
    rfl
  · split at h
    · have hprints := maybeAppendWithLength_prints (w := w) (.bytes (bytes "::")) hm
      rw [show maybeAppendWithLength (w := w) (.bytes (bytes "::")) m = .ok
        (b, m₁) from h] at hprints
      exact hprints.2
    · cases h
      rfl

instance : NeverFails (maybeAppendSeparator (w := w)) := by
  unfold maybeAppendSeparator
  infer_instance

/-! ### Lambdas -/

theorem separated_eq_true {f : Parser w Bool} {m m' : Machine State Store}
    (h : separated f m = .ok (true, m')) :
    (maybeAppendSeparator <&&> f : Parser w Bool) m = .ok (true, m') := by
  rw [separated, saving_run] at h
  obtain ⟨b, m₁, hrun, h⟩ := bind_eq_ok h
  cases b with
  | true =>
    cases h
    exact hrun
  | false =>
    obtain ⟨_, m₂, -, h⟩ := bind_eq_ok h
    cases h

section Lambda

variable [Forward w] {m m' : Machine State Store}

/-- Where a lambda or another unnamed type stands, the other components decline. -/
theorem parseUnnamedTypeName_of_component [ForwardRestores w]
    (hm : m.state.mangledCur ≤ w.length) (hU : w.byteAt m.state.mangledCur = 'U'.toUInt8)
    (h : (prefixComponent : Parser w Bool) m = .ok (true, m')) :
    (parseUnnamedTypeName : Parser w Bool) m = .ok (true, m') := by
  have hunscoped := (declines_parseSubstitution hm (hU ▸ by decide)).of_or
    ((declines_parseTemplateParam hm (hU ▸ by decide)).of_or h)
  rcases or_eq_true_iff.mp hunscoped with hname | ⟨m₁, hname, hstd⟩
  · have hctor :=
      Declines.of_or (.attempt (.and (declines_parseOperatorName hm (hU ▸ by decide)))) hname
    have hothers := attempt_eq_true_iff.mp
      ((declines_parseCtorDtorName hm (hU ▸ by decide) (hU ▸ by decide)).attempt.of_or hctor)
    rcases or_eq_true_iff.mp hothers with hunnamed | ⟨m₁, hunnamed, hother⟩
    · obtain ⟨m₁, htest, hunnamed⟩ := and_eq_true_iff.mp hunnamed
      obtain ⟨b, k, hrun, -, rfl⟩ := scans_atTwoChars 'U' "lt" (by decide) m hm
      rw [hrun] at htest
      cases htest
      exact hunnamed
    · have hrestores : Restores (atTwoChars 'U' "lt" <&&> parseUnnamedTypeName : Parser w Bool) :=
        inferInstance
      have hstate := hrestores.restoresAt m m₁ hunnamed
      rw [← hstate] at hm hU
      have hbinding : Declines (atTwoChars 'D' "C" : Parser w Bool) m₁ :=
        declines_atTwoChars hm 'D' "C" (hU ▸ by decide)
      have hlocal : Declines (parseLocalSourceName : Parser w Bool) m₁ :=
        declines_parseLocalSourceName hm (hU ▸ by decide)
      have hdeclines : Declines ((atTwoChars 'D' "C" <&&> parseStructuredBindingName) <||>
          (parseSourceName <&&> optional parseAbiTags) <||>
          (parseLocalSourceName <&&> optional parseAbiTags) : Parser w Bool) m₁ :=
        .or (.and hbinding) (.or
          (.and (declines_parseSourceName hm (hU ▸ by decide) (hU ▸ by decide))) (.and hlocal))
      exact absurd hother hdeclines.ne_true
  · have hstate := (inferInstance : Restores (parseUnqualifiedName (w := w))).restoresAt m m₁ hname
    rw [← hstate] at hm hU
    have hdeclines :=
      Declines.and (g := (maybeAppend "std::" <&&> parseUnqualifiedName : Parser w Bool))
      (declines_parseTwoCharToken "St" (by decide) hm (hU ▸ by decide))
    exact absurd hstd hdeclines.attempt.ne_true

theorem upperE_ne_zero : 'E'.toUInt8 ≠ 0 := by decide

/-- The parameters of a lambda and its number. -/
def lambdaSignature : Parser w Bool :=
  Forward.parseType <&&> zeroOrMore Forward.parseType <&&>
    parseOneCharToken 'E' upperE_ne_zero <&&>
    optional skipNonNegativeNumber <&&> parseOneCharToken '_' underscore_ne_zero

theorem parseUnnamedTypeName_eq : (parseUnnamedTypeName : Parser w Bool) =
    (attempt (parseTwoCharToken "Ut" <&&> optional skipNonNegativeNumber <&&>
        parseOneCharToken '_') <||>
      attempt (parseTwoCharToken "Ul" <&&> saving fun previous =>
        (disableAppend <&&> lambdaSignature) <&&> restoreAppend previous.append <&&>
          modify fun state => { state with skipSeparator := true })) := by
  have hassoc (f g h : Parser w Bool) :
      ((f <&&> g) <&&> h : Parser w Bool) = (f <&&> g <&&> h) :=
    Backtracking.Parser.and_assoc f g h
  simp only [parseUnnamedTypeName, lambdaSignature, hassoc]

/-- What a lambda leaves of the output: all of it, and word that the separator in front of the
lambda is still to be used. -/
structure LeavesSeparator (m m' : Machine State Store) : Prop where
  output : SameOutput m m'
  append : m'.state.append = m.state.append
  skipSeparator : m'.state.skipSeparator = true

theorem leavesSeparator_of_lambda [ForwardSilent w] (hm : m.state.mangledCur ≤ w.length)
    (htext : bytes "Ul" <+: rest w m.state)
    (h : (parseUnnamedTypeName : Parser w Bool) m = .ok (true, m')) : LeavesSeparator m m' := by
  rw [parseUnnamedTypeName_eq] at h
  have hother := declines_of_prefix (s := "Ut") (by decide) (by decide) hm htext (by decide)
  have hlambda := attempt_eq_true_iff.mp (Declines.of_or (.attempt (.and hother)) h)
  obtain ⟨m₁, htoken, hbody⟩ := and_eq_true_iff.mp hlambda
  have hprefix := List.isPrefixOf_iff_prefix.mpr htext
  rw [parseTwoCharToken_run "Ul" (by decide) hm, if_pos hprefix] at htoken
  cases htoken
  obtain ⟨m₂, hsignature, hrestore⟩ := and_eq_true_iff.mp hbody
  have hcursor : m.state.mangledCur + 2 ≤ w.length := add_length_le_of_prefix hm hprefix
  let muted : Machine State Store := ⟨{ (moved m 2).state with append := false }, m.store⟩
  have hsilent : Silent (lambdaSignature (w := w)) := by
    unfold lambdaSignature
    infer_instance
  have hsame := (hsilent.sameOutput (m := muted) hcursor rfl hsignature).2
  cases hrestore
  exact ⟨⟨hsame.outCur, hsame.overflowed, hsame.prevName, hsame.prevNameLength, hsame.kept,
    hsame.out⟩, rfl, rfl⟩

theorem leavesSeparator_of_reads [ForwardRestores w] [ForwardSilent w]
    (h : ReadsLambda (w := w) m m') :
    ∃ m₁, maybeAppendSeparator (w := w) m = .ok (true, m₁) ∧ LeavesSeparator m₁ m' := by
  obtain ⟨m₂, hseparated, hlevel⟩ := and_eq_true_iff.mp h.run
  obtain ⟨m₁, hsep, hcomponent⟩ := and_eq_true_iff.mp (separated_eq_true hseparated)
  have hm := cursor_le_of_prefix (by decide) h.text
  have hcur := mangledCur_of_separator hm hsep
  have hrest : rest w m₁.state = rest w m.state := by rw [rest, rest, hcur]
  have htext := h.text
  rw [← hrest] at htext
  rw [← hcur] at hm
  have hU : w.byteAt m₁.state.mangledCur = 'U'.toUInt8 := by
    obtain ⟨tail, htail⟩ := htext
    rw [← headD_rest, ← htail]
    rfl
  have hleaves := leavesSeparator_of_lambda hm htext
    (parseUnnamedTypeName_of_component hm hU hcomponent)
  refine ⟨m₁, hsep, ?_⟩
  rw [maybeIncreaseNestLevel, modify_run] at hlevel
  split at hlevel
  · cases hlevel
    exact ⟨⟨hleaves.output.outCur, hleaves.output.overflowed, hleaves.output.prevName,
      hleaves.output.prevNameLength, hleaves.output.kept, hleaves.output.out⟩, hleaves.append,
      hleaves.skipSeparator⟩
  · cases hlevel
    exact hleaves

theorem skipSeparator_of_lambdas [ForwardRestores w] [ForwardSilent w]
    (h : Lambdas (w := w) m m') : m'.state.skipSeparator = true := by
  cases h with
  | first _ hread =>
    obtain ⟨_, -, hleaves⟩ := leavesSeparator_of_reads hread
    exact hleaves.skipSeparator
  | next _ hread =>
    obtain ⟨_, -, hleaves⟩ := leavesSeparator_of_reads hread
    exact hleaves.skipSeparator

/-- After lambdas only, the output still ends with the separator in front of the first of them. -/
theorem takesSeparatorOf_lambdas [ForwardRestores w] [ForwardSilent w]
    (h : Lambdas (w := w) m m') (hnest : 1 ≤ m.state.nestLevel)
    (ho : m'.state.overflowed = false) (happend : m'.state.append = true) :
    TakesSeparatorOf w m m' := by
  induction h with
  | first hskip hread =>
    obtain ⟨m₁, hsep, hleaves⟩ := leavesSeparator_of_reads hread
    rw [hleaves.output.overflowed] at ho
    rw [hleaves.append] at happend
    have hon : m.state.append = true := by
      cases hoff : m.state.append with
      | true => rfl
      | false =>
        rw [maybeAppendSeparator_muted hskip (.inl hoff)] at hsep
        cases hsep
        exact hoff.symm.trans happend
    exact ⟨m₁, (appendsSeparator_of_run hsep ho hskip hnest hon).2.2, hleaves.output.outCur,
      hleaves.output.kept⟩
  | next hbefore hread ih =>
    obtain ⟨m₁, hsep, hleaves⟩ := leavesSeparator_of_reads hread
    rw [maybeAppendSeparator_skip (skipSeparator_of_lambdas hbefore)] at hsep
    cases hsep
    obtain ⟨m₁, happends, hcur, hkept⟩ := ih (hleaves.output.overflowed.symm.trans ho)
      (hleaves.append.symm.trans happend)
    exact ⟨m₁, happends, hleaves.output.outCur.trans hcur, hleaves.output.kept.trans hkept⟩

/-! ### What is taken back -/

/-- `MaybeCancelLastSeparator` has taken two bytes back. -/
theorem Cancels.cond {m before : Machine State Store} (h : Cancels (w := w) m before) :
    1 ≤ before.state.nestLevel ∧ before.state.append = true := by
  obtain ⟨after, hrun, hcur⟩ := h.taken
  by_cases hcond : (before.state.nestLevel ≥ 1 && before.state.append &&
    before.state.outCur ≥ 2) = true
  · simp only [Bool.and_eq_true, decide_eq_true_eq] at hcond
    exact hcond.1
  · rw [maybeCancelLastSeparator_skip hcond] at hrun
    cases hrun
    omega

/-- The component that is not there leaves the state as `MaybeAppendSeparator` has left it. -/
theorem Cancels.separator [ForwardRestores w] {m before : Machine State Store}
    (h : Cancels (w := w) m before) :
    ∃ m₁, maybeAppendSeparator (w := w) m = .ok (true, m₁) ∧ before.state = m₁.state := by
  rcases and_eq_false_iff.mp h.none with hnever | ⟨m₁, hsep, hcomponent⟩
  · exact absurd hnever (NeverFails.ne_false m before)
  · have hrestores : Restores (prefixComponent : Parser w Bool) := by
      unfold prefixComponent
      infer_instance
    exact ⟨m₁, hsep, hrestores.restoresAt m₁ before hcomponent⟩

theorem Cancels.takes_own [ForwardRestores w] {m before : Machine State Store}
    (h : Cancels (w := w) m before) (ho : before.state.overflowed = false)
    (hskip : m.state.skipSeparator = false) : TakesSeparatorOf w m before := by
  obtain ⟨hnest, happend⟩ := h.cond
  obtain ⟨m₁, hsep, hstate⟩ := h.separator
  rw [hstate] at hnest happend ho
  have hon : ¬(m.state.append = false ∨ ¬1 ≤ m.state.nestLevel) := by
    intro hoff
    rw [maybeAppendSeparator_muted hskip hoff] at hsep
    cases hsep
    rcases hoff with hoff | hoff
    · exact absurd (hoff.symm.trans happend) Bool.noConfusion
    · exact hoff hnest
  rw [not_or, not_not, Bool.not_eq_false] at hon
  exact ⟨m₁, (appendsSeparator_of_run hsep ho hskip hon.2 hon.1).2.2,
    congrArg State.outCur hstate, congrArg State.kept hstate⟩

theorem Cancels.takes_before_lambdas [ForwardRestores w] [ForwardSilent w]
    {m₀ m before : Machine State Store} (h : Cancels (w := w) m before)
    (ho : before.state.overflowed = false) (hnest : 1 ≤ m₀.state.nestLevel)
    (hlambdas : Lambdas (w := w) m₀ m) : TakesSeparatorOf w m₀ before := by
  obtain ⟨-, happend⟩ := h.cond
  obtain ⟨m₁, hsep, hstate⟩ := h.separator
  rw [maybeAppendSeparator_skip (skipSeparator_of_lambdas hlambdas)] at hsep
  cases hsep
  rw [hstate] at happend ho
  obtain ⟨m₁, happends, hcur, hkept⟩ := takesSeparatorOf_lambdas hlambdas hnest ho happend
  exact ⟨m₁, happends, (congrArg State.outCur hstate).trans hcur,
    (congrArg State.kept hstate).trans hkept⟩

end Lambda

/-- `MaybeCancelLastSeparator` takes two bytes back. -/
def cuts (before : Machine State Store) : Bool :=
  (before.state.nestLevel ≥ 1 && before.state.append && before.state.outCur ≥ 2) &&
    before.state.outCur < before.store.out.length

theorem cancels_of_cuts [Forward w] {m before : Machine State Store}
    (hrun : (maybeAppendSeparator <&&> prefixComponent : Parser w Bool) m = .ok (false, before))
    (hcuts : cuts before = true) : Cancels (w := w) m before := by
  obtain ⟨hcond, hlt⟩ := Bool.and_eq_true_iff.mp hcuts
  have hlt := of_decide_eq_true hlt
  have hcur := of_decide_eq_true (Bool.and_eq_true_iff.mp hcond).2
  refine ⟨hrun, _, maybeCancelLastSeparator_run _ hcond (by omega), ?_⟩
  simp only [cancelled]
  omega

/-- What `MaybeCancelLastSeparator` takes back, at every machine and so throughout every run that
does not overflow. An iteration that begins with `skip_separator` clear takes back the `::` that it
has appended itself. An iteration after lambdas takes back the `::` that stands in front of the
first of them, if the iteration that read this one had appended one. -/
theorem cancels_separator (w : CString) (n : ℕ) (m before : Machine State Store) :
    letI := forwardAt w n
    Cancels (w := w) m before → before.state.overflowed = false →
      (m.state.skipSeparator = false → TakesSeparatorOf w m before) ∧
      ∀ m₀, 1 ≤ m₀.state.nestLevel → Lambdas (w := w) m₀ m → TakesSeparatorOf w m₀ before := by
  let _ := forwardAt w n
  have _ := restores_forwardAt w n
  have _ := silent_forwardAt w n
  intro hcancels ho
  exact ⟨hcancels.takes_own ho, fun m₀ => hcancels.takes_before_lambdas ho⟩

/-- The machine of a nested name whose first component has been read, with nothing printed. -/
def nestedMachine : Machine State Store :=
  ⟨{ initState with nestLevel := 1 }, (initMachine [0, 0, 0]).store⟩

/-- At the name `E` the separator is appended, no component follows, and the separator is taken
back. At `UlvE_E` it is the one in front of the lambda. -/
theorem cancels_separator_end :
    (∃ before, @Cancels (.ofString "E") (forwardAt _ parseFuel) nestedMachine before ∧
      before.state.overflowed = false ∧ before.state.outCur = 2 ∧
      TakesSeparatorOf (.ofString "E") nestedMachine before) ∧
    ∃ m before, @Lambdas (.ofString "UlvE_E") (forwardAt _ parseFuel) nestedMachine m ∧
      @Cancels (.ofString "UlvE_E") (forwardAt _ parseFuel) m before ∧
      before.state.overflowed = false ∧ m.state.outCur = 2 ∧
      TakesSeparatorOf (.ofString "UlvE_E") nestedMachine before := by
  constructor
  · let _ := forwardAt (.ofString "E") parseFuel
    obtain ⟨before, hrun, hp⟩ := exists_of_failsWith
      (r := (maybeAppendSeparator <&&> prefixComponent : Parser (.ofString "E" _) Bool)
        nestedMachine)
      (p := fun before => !before.state.overflowed && before.state.outCur == 2 && cuts before)
      (by decide +kernel)
    simp only [Bool.and_eq_true, Bool.not_eq_true', beq_iff_eq] at hp
    obtain ⟨⟨ho, hcur⟩, hcuts⟩ := hp
    have hcancels := cancels_of_cuts hrun hcuts
    exact ⟨before, hcancels, ho, hcur,
      (cancels_separator (.ofString "E") parseFuel _ before hcancels ho).1 rfl⟩
  · let _ := forwardAt (.ofString "UlvE_E") parseFuel
    obtain ⟨m, hread, hp⟩ := exists_of_succeedsWith
      (r := (separated prefixComponent <&&> maybeIncreaseNestLevel :
        Parser (.ofString "UlvE_E" _) Bool) nestedMachine)
      (p := fun m => m.state.outCur == 2 &&
        failsWith ((maybeAppendSeparator <&&> prefixComponent :
          Parser (.ofString "UlvE_E" _) Bool) m)
          fun before => !before.state.overflowed && cuts before)
      (by decide +kernel)
    simp only [Bool.and_eq_true, beq_iff_eq] at hp
    obtain ⟨before, hrun, hp'⟩ := exists_of_failsWith hp.2
    simp only [Bool.and_eq_true, Bool.not_eq_true'] at hp'
    have hcancels := cancels_of_cuts hrun hp'.2
    have hlambdas : Lambdas (w := .ofString "UlvE_E" _) nestedMachine m :=
      .first rfl ⟨by decide +kernel, hread⟩
    exact ⟨m, before, hlambdas, hcancels, hp'.1, hp.1,
      (cancels_separator (.ofString "UlvE_E") parseFuel m before hcancels hp'.1).2
        nestedMachine (by decide) hlambdas⟩

set_option maxRecDepth 10000 in
/-- The separator taken back is not always that of the same iteration: in `_ZN1SIiE1xMUlvE_E`, which
is printed as `S<>::x`, the lambda is followed by an iteration that appends nothing and takes back
the separator in front of the lambda. The buffer has room for every write of the run. -/
theorem cuts_separator_of_lambda : ¬∀ (w : CString) (out : List Byte) (accepted : Bool)
    (m : Machine State Store), demangle w out = .ok (accepted, m) →
      m.store.ops.length < out.length → ∀ write ∈ m.store.ops, write.op ≠ .cut false := by
  intro hall
  obtain ⟨m, hrun, hp⟩ := exists_of_succeedsWith
    (r := demangle (.ofString "_ZN1SIiE1xMUlvE_E") (List.replicate 64 0))
    (p := fun m => m.store.ops.length < 64 && m.store.ops.any (·.op == .cut false) &&
      (outBytes m).take 7 == bytes "S<>::x" ++ [0]) (by decide +kernel)
  simp only [Bool.and_eq_true, decide_eq_true_eq, List.any_eq_true, beq_iff_eq] at hp
  obtain ⟨⟨hlen, write, hmem, hcut⟩, -⟩ := hp
  exact hall _ _ true m hrun hlen write hmem hcut

end Demangle

end NgLog
