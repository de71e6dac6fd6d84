import Mathlib.Logic.Function.Basic
import NgLog.Flags.Values
import NgLog.Support.Transition

/-!
# Flags that are saved and restored

A `ScopedFlag` saves the value of a flag and whether it was set explicitly, and sets another value.
At its end it restores both. In between the flag counts as set explicitly, so it does not follow a
new default. If the flag was not set explicitly before, it then ends up with the old default as its
value although it counts as not set explicitly: the current value "follows unless it was set
explicitly", but here it has not followed.

This is the only way to get there. A flag that is not set explicitly has its default as its value
after every part of a run if and only if every scope that had found the flag not set explicitly ends
with the default with which it began.

## Main definitions

* `ScopedFlag`, `Process` — a flag with its storage, its registration and the scopes
* `step` — setting the flag or its default, scopes, and registration
* `FollowsDefault` — what a flag that is not set explicitly should satisfy
* `EndsWithItsDefault` — the condition on the end of a scope

## Main results

* `step_spec` — one step in terms of the specification of the storage
* `followsDefault_iff` — the runs in which the flag always follows its default
* `restored_value_differs` — a run in which it does not
-/

namespace NgLog

namespace FlagValues

open Transition (run Along)

variable {T σ : Type} [Storage σ T]

/-! ### Flags and scopes -/

/-- `FlagTraits<T>::Parse`: the value that is left in the output, or an error. -/
abbrev Parse (T : Type) : Type := List Byte → T → Option T

/-- `Flag<T>::SetFromString`. -/
def setFromString (parse : Parse T) (s : σ) (value : List Byte) : Option (σ × Bool) := do
  let (s, current) ← Storage.get s
  match parse value current with
  | none => return (s, false)
  | some parsed =>
    let s ← Storage.set s parsed
    return (s, true)

/-- `Flag<T>::SetDefaultFromString`. -/
def setDefaultFromString (parse : Parse T) (s : σ) (value : List Byte) : Option (σ × Bool) := do
  let (s, default) ← Storage.getDefault s
  match parse value default with
  | none => return (s, false)
  | some parsed =>
    let s ← Storage.setDefault s parsed
    return (s, true)

/-- The end of `FlagGroup::AddFlag`, with the value of the environment variable if there is one to
be read. -/
def addFlag (parse : Parse T) (s : σ) : Option (List Byte) → Option σ
  | none => some s
  | some environmentValue => (setDefaultFromString parse s environmentValue).map Prod.fst

/-- `ScopedFlag`, whose flag is not null. -/
structure ScopedFlag (T : Type) where
  registration : ℕ
  oldValue : T
  oldExplicitlySet : Bool
  newValue : T

namespace ScopedFlag

/-- The constructor, for a flag with the registration. -/
def construct (s : σ) (registration : ℕ) (value : T) : Option (σ × ScopedFlag T) := do
  let (s, oldValue) ← Storage.get s
  let (s, oldExplicitlySet) ← Storage.explicitlySet s
  let s ← Storage.set s value
  let (s, newValue) ← Storage.get s
  return (s, ⟨registration, oldValue, oldExplicitlySet, newValue⟩)

/-- Whether a `RegisteredFlagLock` finds the flag, which has the registration `current` or, if it is
zero, none. -/
def registered (scope : ScopedFlag T) (current : ℕ) : Bool :=
  scope.registration = 0 ∨ current = scope.registration

/-- `ScopedFlag<T>::Reapply`. -/
def reapply (scope : ScopedFlag T) (s : σ) (current : ℕ) : Option σ :=
  if scope.registered current then Storage.set s scope.newValue else some s

/-- `ScopedFlag<T>::Restore`. -/
def restore (scope : ScopedFlag T) (s : σ) (current : ℕ) : Option σ :=
  if scope.registered current then Storage.restore s scope.oldValue scope.oldExplicitlySet
  else some s

end ScopedFlag

/-- A scope, and the default that the flag had when the scope began. -/
structure LiveScope (T : Type) where
  scope : ScopedFlag T
  defaultAtStart : T

/-- A flag: its storage, its registration or zero, the next registration, and the scopes by the
objects that hold them. -/
structure Process (σ T : Type) where
  storage : σ
  registration : ℕ
  nextRegistration : ℕ
  scopes : ℕ → Option (LiveScope T)

/-- A flag that is not registered yet. -/
def Process.init (storage : σ) : Process σ T := ⟨storage, 0, 1, fun _ => none⟩

/-- What can happen to a flag. -/
inductive Action (T : Type)
  | set (value : T)
  | setFromString (value : List Byte)
  | setDefaultFromString (value : List Byte)
  | addFlag (environmentValue : Option (List Byte))
  | construct (object : ℕ) (value : T)
  | moveConstruct (object other : ℕ)
  | reapply (object : ℕ)
  | destroy (object : ℕ)
  | registerFlag
  | unregisterFlag

variable (parse : Parse T)

/-- One step. -/
def step (p : Process σ T) : Action T → Option (Process σ T)
  | .set value => (Storage.set p.storage value).map fun storage => { p with storage }
  | .setFromString value =>
    (setFromString parse p.storage value).map fun r => { p with storage := r.1 }
  | .setDefaultFromString value =>
    (setDefaultFromString parse p.storage value).map fun r => { p with storage := r.1 }
  | .addFlag environmentValue =>
    (addFlag parse p.storage environmentValue).map fun storage => { p with storage }
  | .construct object value => do
    if (p.scopes object).isSome then none
    let (_, defaultAtStart) ← Storage.getDefault p.storage
    let (storage, scope) ← ScopedFlag.construct p.storage p.registration value
    return { p with
      storage, scopes := Function.update p.scopes object (some ⟨scope, defaultAtStart⟩) }
  | .moveConstruct object other =>
    if (p.scopes object).isSome then none
    else some { p with
      scopes := Function.update (Function.update p.scopes other none) object (p.scopes other) }
  | .reapply object =>
    match p.scopes object with
    | none => some p
    | some live =>
      (live.scope.reapply p.storage p.registration).map fun storage => { p with storage }
  | .destroy object =>
    match p.scopes object with
    | none => some p
    | some live => (live.scope.restore p.storage p.registration).map fun storage =>
        { p with storage, scopes := Function.update p.scopes object none }
  | .registerFlag =>
    if p.registration ≠ 0 then none
    else some { p with
      registration := p.nextRegistration, nextRegistration := p.nextRegistration + 1 }
  | .unregisterFlag => some { p with registration := 0 }

/-! ### The law -/

/-- A flag that is not set explicitly has its default as its value. -/
def FollowsDefault (s : σ) : Prop :=
  ∃ s₁ value s₂ default s₃ explicitlySet, Storage.get s = some (s₁, value) ∧
    Storage.getDefault s = some (s₂, default) ∧
    Storage.explicitlySet s = some (s₃, explicitlySet) ∧
    (explicitlySet = false → value = default)

/-- If the action ends a scope that had found the flag not set explicitly, and the flag is still the
one that the scope has saved, then it has the default again with which the scope began. -/
def EndsWithItsDefault (p : Process σ T) : Action T → Prop
  | .destroy object => ∀ live, p.scopes object = some live →
      live.scope.registered p.registration = true → live.scope.oldExplicitlySet = false →
        ∃ s, Storage.getDefault p.storage = some (s, live.defaultAtStart)
  | _ => True

/-! ### One step in terms of the specification -/

/-- The law for the specification. -/
def Values.Follows (t : Values T) : Prop := t.explicitlySet = false → t.value = t.default

theorem follows_init (value : T) : (Values.init value).Follows := fun _ => rfl

theorem follows_set (t : Values T) (value : T) : (t.set value).Follows := by
  intro h
  cases h

theorem Values.Follows.setDefault {t : Values T} (_ : t.Follows) (value : T) :
    (t.setDefault value).Follows := by
  intro hexplicit
  change t.explicitlySet = false at hexplicit
  simp [Values.setDefault, hexplicit]

section Refinement

variable {parse} {R : σ → Values T → Prop} (hR : Refines σ R) {s : σ} {t : Values T}

include hR

theorem followsDefault_iff_follows (hst : R s t) : FollowsDefault s ↔ t.Follows := by
  obtain ⟨s₁, hget, -⟩ := hR.get hst
  obtain ⟨s₂, hdefault, -⟩ := hR.getDefault hst
  obtain ⟨s₃, hexplicit, -⟩ := hR.explicitlySet hst
  constructor
  · rintro ⟨_, value, _, default, _, explicitlySet, hget', hdefault', hexplicit', h⟩
    cases hget.symm.trans hget'
    cases hdefault.symm.trans hdefault'
    cases hexplicit.symm.trans hexplicit'
    exact h
  · exact fun h => ⟨s₁, _, s₂, _, s₃, _, hget, hdefault, hexplicit, h⟩

theorem setFromString_spec (hst : R s t) (ht : t.Follows) (value : List Byte) :
    ∃ s' result t', setFromString parse s value = some (s', result) ∧ R s' t' ∧ t'.Follows := by
  obtain ⟨s₁, hget, hst⟩ := hR.get hst
  cases hparse : parse value t.value with
  | none => exact ⟨s₁, false, t, by simp [setFromString, hget, hparse], hst, ht⟩
  | some parsed =>
    obtain ⟨s₂, hset, hst⟩ := hR.set hst parsed
    exact ⟨s₂, true, _, by simp [setFromString, hget, hparse, hset], hst, follows_set t parsed⟩

theorem setDefaultFromString_spec (hst : R s t) (ht : t.Follows) (value : List Byte) :
    ∃ s' result t', setDefaultFromString parse s value = some (s', result) ∧ R s' t' ∧
      t'.Follows := by
  obtain ⟨s₁, hget, hst⟩ := hR.getDefault hst
  cases hparse : parse value t.default with
  | none => exact ⟨s₁, false, t, by simp [setDefaultFromString, hget, hparse], hst, ht⟩
  | some parsed =>
    obtain ⟨s₂, hset, hst⟩ := hR.setDefault hst parsed
    exact ⟨s₂, true, _, by simp [setDefaultFromString, hget, hparse, hset], hst,
      ht.setDefault parsed⟩

theorem addFlag_spec (hst : R s t) (ht : t.Follows) (environmentValue : Option (List Byte)) :
    ∃ s' t', addFlag parse s environmentValue = some s' ∧ R s' t' ∧ t'.Follows := by
  cases environmentValue with
  | none => exact ⟨s, t, rfl, hst, ht⟩
  | some value =>
    obtain ⟨s', result, t', hs', hst', ht'⟩ := setDefaultFromString_spec hR hst ht value
    exact ⟨s', t', Option.map_eq_some_iff.mpr ⟨_, hs', rfl⟩, hst', ht'⟩

/-- A scope saves the value and whether it was set explicitly, and sets the flag. -/
theorem construct_spec (hst : R s t) (registration : ℕ) (value : T) :
    ∃ s', ScopedFlag.construct s registration value =
        some (s', ⟨registration, t.value, t.explicitlySet, value⟩) ∧ R s' (t.set value) := by
  obtain ⟨s₁, hget, hst⟩ := hR.get hst
  obtain ⟨s₂, hexplicit, hst⟩ := hR.explicitlySet hst
  obtain ⟨s₃, hset, hst⟩ := hR.set hst value
  obtain ⟨s₄, hnew, hst⟩ := hR.get hst
  refine ⟨s₄, ?_, hst⟩
  simp [ScopedFlag.construct, hget, hexplicit, hset, hnew, Values.set]

theorem reapply_spec (hst : R s t) (ht : t.Follows) (scope : ScopedFlag T) (current : ℕ) :
    ∃ s' t', scope.reapply s current = some s' ∧ R s' t' ∧ t'.Follows := by
  by_cases hregistered : scope.registered current
  · obtain ⟨s', hs', hst'⟩ := hR.set hst scope.newValue
    exact ⟨s', _, by rw [ScopedFlag.reapply, if_pos hregistered, hs'], hst', follows_set t _⟩
  · exact ⟨s, t, by rw [ScopedFlag.reapply, if_neg hregistered], hst, ht⟩

/-- A scope restores what it has saved if the flag is still the one it has saved. -/
theorem restore_spec (hst : R s t) (scope : ScopedFlag T) (current : ℕ) :
    ∃ s', scope.restore s current = some s' ∧
      R s' (if scope.registered current then t.restore scope.oldValue scope.oldExplicitlySet
        else t) := by
  by_cases hregistered : scope.registered current
  · obtain ⟨s', hs', hst'⟩ := hR.restore hst scope.oldValue scope.oldExplicitlySet
    exact ⟨s', by rw [ScopedFlag.restore, if_pos hregistered, hs'], by rwa [if_pos hregistered]⟩
  · exact ⟨s, by rw [ScopedFlag.restore, if_neg hregistered], by rwa [if_neg hregistered]⟩

end Refinement

/-- The scopes that have found the flag not set explicitly have saved its default. -/
def SavedDefaults (p : Process σ T) : Prop :=
  ∀ object live, p.scopes object = some live → live.scope.oldExplicitlySet = false →
    live.scope.oldValue = live.defaultAtStart

omit [Storage σ T] in
theorem savedDefaults_update {p : Process σ T} (h : SavedDefaults p) (storage : σ) (object : ℕ)
    {slot : Option (LiveScope T)}
    (hslot : ∀ live, slot = some live → live.scope.oldExplicitlySet = false →
      live.scope.oldValue = live.defaultAtStart) :
    SavedDefaults { p with storage, scopes := Function.update p.scopes object slot } := by
  intro other live hlive
  by_cases hother : other = object
  · subst hother
    exact hslot live (by simpa using hlive)
  · exact h other live (by simpa [hother] using hlive)

/-- The flag follows its default, and the scopes have saved the defaults. -/
structure Invariant (R : σ → Values T → Prop) (p : Process σ T) : Prop where
  values : ∃ t, R p.storage t ∧ t.Follows
  saved : SavedDefaults p

/-- What the end of a scope makes of the values follows the default if and only if the scope ends
with its default: the saved value is the default of the time when the scope was made. -/
theorem follows_restore_iff {R : σ → Values T → Prop} (hR : Refines σ R) {p : Process σ T}
    {t : Values T} (hst : R p.storage t) (ht : t.Follows) (hsaved : SavedDefaults p) {object : ℕ}
    {live : LiveScope T} (hlive : p.scopes object = some live) :
    (if live.scope.registered p.registration
        then t.restore live.scope.oldValue live.scope.oldExplicitlySet else t).Follows ↔
      EndsWithItsDefault p (.destroy object) := by
  obtain ⟨s₁, hdefault, -⟩ := hR.getDefault hst
  have hold := hsaved object live hlive
  by_cases hregistered : live.scope.registered p.registration = true
  · rw [if_pos hregistered]
    constructor
    · intro hfollows live' hlive' _ hexplicit
      cases hlive.symm.trans hlive'
      have hvalue : live.scope.oldValue = t.default := hfollows hexplicit
      exact ⟨s₁, by rw [hdefault, ← hvalue, hold hexplicit]⟩
    · intro hends hexplicit
      obtain ⟨s₂, hstart⟩ := hends live hlive hregistered hexplicit
      have hsame : t.default = live.defaultAtStart :=
        (Prod.mk.inj (Option.some.inj (hdefault.symm.trans hstart))).2
      exact (hold hexplicit).trans hsame.symm
  · rw [if_neg hregistered]
    refine iff_of_true ht fun live' hlive' hregistered' => ?_
    cases hlive.symm.trans hlive'
    exact absurd hregistered' hregistered

/-- After a step from the invariant, the flag follows its default if and only if the step does not
end a scope with another default than its own. The scopes have saved the defaults in any case. -/
theorem step_spec {R : σ → Values T → Prop} (hR : Refines σ R) {p p' : Process σ T} {a : Action T}
    (hp : Invariant R p) (hstep : step parse p a = some p') :
    SavedDefaults p' ∧ ∃ t, R p'.storage t ∧ (t.Follows ↔ EndsWithItsDefault p a) := by
  obtain ⟨⟨t, hst, ht⟩, hsaved⟩ := hp
  cases a with
  | set value =>
    obtain ⟨s', hs', hst'⟩ := hR.set hst value
    obtain ⟨_, hs, rfl⟩ := Option.map_eq_some_iff.mp hstep
    cases hs'.symm.trans hs
    exact ⟨hsaved, _, hst', iff_of_true (follows_set t value) trivial⟩
  | setFromString value =>
    obtain ⟨s', result, t', hs', hst', ht'⟩ := setFromString_spec hR hst ht value
    obtain ⟨_, hs, rfl⟩ := Option.map_eq_some_iff.mp hstep
    cases hs'.symm.trans hs
    exact ⟨hsaved, t', hst', iff_of_true ht' trivial⟩
  | setDefaultFromString value =>
    obtain ⟨s', result, t', hs', hst', ht'⟩ := setDefaultFromString_spec hR hst ht value
    obtain ⟨_, hs, rfl⟩ := Option.map_eq_some_iff.mp hstep
    cases hs'.symm.trans hs
    exact ⟨hsaved, t', hst', iff_of_true ht' trivial⟩
  | addFlag environmentValue =>
    obtain ⟨s', t', hs', hst', ht'⟩ := addFlag_spec hR hst ht environmentValue
    obtain ⟨_, hs, rfl⟩ := Option.map_eq_some_iff.mp hstep
    cases hs'.symm.trans hs
    exact ⟨hsaved, t', hst', iff_of_true ht' trivial⟩
  | construct object value =>
    obtain ⟨s₁, hdefault, -⟩ := hR.getDefault hst
    obtain ⟨s', hs', hst'⟩ := construct_spec hR hst p.registration value
    by_cases hfree : (p.scopes object).isSome = true
    · simp [step, hfree] at hstep
    · simp only [step, hfree, hdefault, hs'] at hstep
      cases hstep
      refine ⟨savedDefaults_update hsaved s' object fun live hlive hexplicit => ?_, _, hst',
        iff_of_true (follows_set t value) trivial⟩
      obtain rfl := Option.some.inj hlive
      exact ht hexplicit
  | moveConstruct object other =>
    by_cases hfree : (p.scopes object).isSome = true
    · simp [step, hfree] at hstep
    · simp only [step, hfree] at hstep
      cases hstep
      refine ⟨?_, t, hst, iff_of_true ht trivial⟩
      exact savedDefaults_update (savedDefaults_update hsaved p.storage other (by simp)) p.storage
        object (hsaved other)
  | reapply object =>
    cases hlive : p.scopes object with
    | none =>
      simp only [step, hlive] at hstep
      cases hstep
      exact ⟨hsaved, t, hst, iff_of_true ht trivial⟩
    | some live =>
      simp only [step, hlive] at hstep
      obtain ⟨s', t', hs', hst', ht'⟩ := reapply_spec hR hst ht live.scope p.registration
      obtain ⟨_, hs, rfl⟩ := Option.map_eq_some_iff.mp hstep
      cases hs'.symm.trans hs
      exact ⟨hsaved, t', hst', iff_of_true ht' trivial⟩
  | destroy object =>
    cases hlive : p.scopes object with
    | none =>
      simp only [step, hlive] at hstep
      cases hstep
      exact ⟨hsaved, t, hst, iff_of_true ht (by simp [EndsWithItsDefault, hlive])⟩
    | some live =>
      simp only [step, hlive] at hstep
      obtain ⟨s', hs', hst'⟩ := restore_spec hR hst live.scope p.registration
      obtain ⟨_, hs, rfl⟩ := Option.map_eq_some_iff.mp hstep
      cases hs'.symm.trans hs
      exact ⟨savedDefaults_update hsaved s' object (by simp), _, hst',
        follows_restore_iff hR hst ht hsaved hlive⟩
  | registerFlag =>
    by_cases hregistration : p.registration = 0
    · simp only [step, hregistration] at hstep
      cases hstep
      exact ⟨hsaved, t, hst, iff_of_true ht trivial⟩
    · simp [step, hregistration] at hstep
  | unregisterFlag =>
    cases hstep
    exact ⟨hsaved, t, hst, iff_of_true ht trivial⟩

/-- A scope can always end. -/
theorem destroy_enabled {R : σ → Values T → Prop} (hR : Refines σ R) {p : Process σ T}
    (hp : Invariant R p) (object : ℕ) : ∃ p', step parse p (.destroy object) = some p' := by
  obtain ⟨t, hst, -⟩ := hp.values
  cases hlive : p.scopes object with
  | none => exact ⟨p, by simp [step, hlive]⟩
  | some live =>
    obtain ⟨s', hs', -⟩ := restore_spec hR hst live.scope p.registration
    refine ⟨{ p with storage := s', scopes := Function.update p.scopes object none }, ?_⟩
    simp [step, hlive, hs']

/-- One step keeps the law if and only if it does not end a scope with another default than its
own. -/
theorem step_followsDefault_iff {R : σ → Values T → Prop} (hR : Refines σ R) {p : Process σ T}
    (hp : Invariant R p) (a : Action T) :
    (∀ p', step parse p a = some p' → FollowsDefault p'.storage) ↔ EndsWithItsDefault p a := by
  constructor
  · intro h
    cases a with
    | destroy object =>
      obtain ⟨p', hstep⟩ := destroy_enabled parse hR hp object
      obtain ⟨-, t, hst, hiff⟩ := step_spec parse hR hp hstep
      exact hiff.mp ((followsDefault_iff_follows hR hst).mp (h p' hstep))
    | _ => exact trivial
  · intro h p' hstep
    obtain ⟨-, t, hst, hiff⟩ := step_spec parse hR hp hstep
    exact (followsDefault_iff_follows hR hst).mpr (hiff.mpr h)

/-! ### Whole runs -/

/-- From the storage on, the flag follows its default in every state if and only if every scope ends
with its own default. -/
def FollowsIffScopesEndWithDefaults (parse : Parse T) (storage : σ) : Prop :=
  ∀ actions : List (Action T),
    (∀ actions' p, actions' <+: actions →
      run (step parse) (Process.init storage) actions' = some p → FollowsDefault p.storage) ↔
    Along (step parse) EndsWithItsDefault (Process.init storage) actions

theorem followsIff_of_refines {R : σ → Values T → Prop} (hR : Refines σ R) {storage : σ}
    {value : T} (hstart : R storage (.init value)) :
    FollowsIffScopesEndWithDefaults parse storage := by
  intro actions
  have hinit : Invariant R (Process.init storage : Process σ T) :=
    ⟨⟨_, hstart, follows_init value⟩, fun _ _ h => by cases h⟩
  have hlaw : FollowsDefault (Process.init storage : Process σ T).storage :=
    (followsDefault_iff_follows hR hstart).mpr (follows_init value)
  rw [← Transition.along_post_iff (I := fun p : Process σ T => FollowsDefault p.storage) hlaw]
  refine Transition.along_congr (I := Invariant R)
    (fun p a hp => step_followsDefault_iff parse hR hp a) (fun p a p' hkeeps hp hstep => ?_) hinit
  obtain ⟨hsaved, t, hst, -⟩ := step_spec parse hR hp hstep
  exact ⟨⟨t, hst, (followsDefault_iff_follows hR hst).mp (hkeeps p' hstep)⟩, hsaved⟩

/-- For every flag, whichever storage its type selects and however it is constructed: in every run,
the flag has its default as its value in all states in which it is not set explicitly, if and only
if every scope that had found it not set explicitly ends with the default with which it began. -/
theorem followsDefault_iff {T : Type} [Inhabited T] (parse : Parse T)
    (parseString : Parse (List Byte)) (start : Start T) (stringStart : Start (List Byte)) :
    FollowsIffScopesEndWithDefaults parse (FlagValueStorage.start start) ∧
      FollowsIffScopesEndWithDefaults parse (AtomicFlagValueStorage.start start) ∧
      FollowsIffScopesEndWithDefaults parseString (StringFlagValueStorage.start stringStart) := by
  refine ⟨?_, ?_, ?_⟩
  · have hstart : (FlagValueStorage.start start).storage.Represents (.init start.value) ∧ True :=
      ⟨LockedFlagValueStorage.represents_start start, trivial⟩
    exact followsIff_of_refines parse (refines_locked _) hstart
  · exact followsIff_of_refines parse (refines_atomic T)
      (AtomicFlagValueStorage.represents_start start)
  · exact followsIff_of_refines parseString refines_string
      (StringFlagValueStorage.represents_start stringStart)

/-- `FlagTraits<std::string>::Parse`. -/
def parseString : Parse (List Byte) := fun value _ => some value

/-- A scope sets a flag, which gets a default from the environment when it is added to a group, and
ends. -/
def defaultWithinScope : List (Action (List Byte)) :=
  [.registerFlag, .construct 0 (bytes "scoped"), .addFlag (some (bytes "environment")), .destroy 0]

/-- After the scope, the flag is not set explicitly but has not followed the default. -/
theorem restored_value_differs :
    ¬∀ (start : Start (List Byte)) (actions : List (Action (List Byte)))
      (p : Process StringFlagValueStorage (List Byte)),
        run (step parseString) (Process.init (.start start)) actions = some p →
          FollowsDefault p.storage := by
  intro hall
  obtain ⟨_, value, _, default, _, explicitlySet, hget, hdefault, hexplicit, h⟩ :=
    hall (.lazily fun _ => []) defaultWithinScope _ rfl
  cases hget
  cases hdefault
  cases hexplicit
  exact absurd (h rfl) (by decide)

end FlagValues

end NgLog
