import NgLog.Support.Bytes
import NgLog.Support.Simulation

/-!
# The values of a flag

A flag keeps its current value, its default and whether the value has been set explicitly. There are
two storages: one that constructs the values in place and protects them by a lock, and one of atomic
variables. A flag is either constructed with a value, or computes it from a function at the first
access. The storage of strings adds a variable that remembers whether the current value is empty, so
that `Empty` needs no lock; every operation that changes the current value passes it to an observer
that records it.

`Values` says what a storage is for. Both storages refine it, wherever in a sequence of operations
the first access is, and the variable of the string storage is never wrong.

## Main definitions

* `Values`, `Operation`, `Values.step` — the specification
* `LockedFlagValueStorage`, `AtomicFlagValueStorage` — the two storages
* `FlagValueStorage`, `StringFlagValueStorage` — the storages with a lock, with their observers
* `Storage`, `Refines` — their operations, and what relates them to the specification

## Main results

* `Refines.simulates` — a storage that refines the specification answers as it does
* `refines_observed`, `refines_atomic` — the storages do
* `storages_refine` — the replies of all storages, and `Empty`, after every sequence of operations
-/

namespace NgLog

namespace FlagValues

open Simulation (trace execute)

/-! ### The specification -/

/-- The values of a flag. -/
structure Values (T : Type) where
  value : T
  default : T
  explicitlySet : Bool
deriving DecidableEq

/-- An operation on the values. -/
inductive Operation (T : Type)
  | initializeValues
  | get
  | getDefault
  | set (value : T)
  | setDefault (value : T)
  | explicitlySet
  | restore (value : T) (explicitlySet : Bool)

/-- What an operation returns. -/
inductive Reply (T : Type)
  | done
  | value (value : T)
  | flag (flag : Bool)
deriving DecidableEq

variable {T : Type}

namespace Values

/-- The values of a flag that nobody has set. -/
def init (value : T) : Values T := ⟨value, value, false⟩

/-- The value is set explicitly. -/
def set (t : Values T) (value : T) : Values T := { t with value, explicitlySet := true }

/-- The default is set; the value follows it unless it was set explicitly. -/
def setDefault (t : Values T) (value : T) : Values T :=
  { t with default := value, value := if t.explicitlySet then t.value else value }

/-- A value is restored that may or may not have been set explicitly. -/
def restore (t : Values T) (value : T) (explicitlySet : Bool) : Values T :=
  { t with value, explicitlySet }

/-- The specification of an operation. -/
def step (t : Values T) : Operation T → Values T × Reply T
  | .initializeValues => (t, .done)
  | .get => (t, .value t.value)
  | .getDefault => (t, .value t.default)
  | .set value => (t.set value, .done)
  | .setDefault value => (t.setDefault value, .done)
  | .explicitlySet => (t, .flag t.explicitlySet)
  | .restore value explicitlySet => (t.restore value explicitlySet, .done)

end Values

/-! ### Storages -/

/-- `DefaultValueFunction`. -/
abbrev DefaultValueFunction (T : Type) : Type := Unit → T

/-- How a storage is constructed. -/
inductive Start (T : Type)
  /-- From the function that computes the default value. -/
  | lazily (defaultValue : DefaultValueFunction T)
  /-- From the value. -/
  | eagerly (value : T)

/-- The value with which a storage starts. -/
def Start.value : Start T → T
  | .lazily defaultValue => defaultValue ()
  | .eagerly value => value

/-- The operations of a storage. An operation that would dereference or call a null pointer, or
would wait forever, has no result. -/
class Storage (σ : Type) (T : outParam Type) where
  initializeValues : σ → Option σ
  get : σ → Option (σ × T)
  getDefault : σ → Option (σ × T)
  set : σ → T → Option σ
  setDefault : σ → T → Option σ
  explicitlySet : σ → Option (σ × Bool)
  restore : σ → T → Bool → Option σ

/-- One operation of a storage. -/
def Storage.step {σ : Type} [Storage σ T] (s : σ) : Operation T → Option (σ × Reply T)
  | .initializeValues => (Storage.initializeValues s).map fun s => (s, .done)
  | .get => (Storage.get s).map fun r => (r.1, .value r.2)
  | .getDefault => (Storage.getDefault s).map fun r => (r.1, .value r.2)
  | .set value => (Storage.set s value).map fun s => (s, .done)
  | .setDefault value => (Storage.setDefault s value).map fun s => (s, .done)
  | .explicitlySet => (Storage.explicitlySet s).map fun r => (r.1, .flag r.2)
  | .restore value explicitlySet => (Storage.restore s value explicitlySet).map fun s => (s, .done)

/-! ### The storage with a lock -/

/-- `LockedFlagValueStorage`. -/
structure LockedFlagValueStorage (T : Type) where
  defaultValue : Option (DefaultValueFunction T)
  initialized : Bool := false
  current : Option T := none
  default : Option T := none
  modified : Bool := false

namespace LockedFlagValueStorage

variable {ω : Type} (observer : T → ω → ω)

/-- `ConstructLocked`. -/
def constructLocked (s : LockedFlagValueStorage T) (value : T) : LockedFlagValueStorage T :=
  { s with current := some value, default := some value, initialized := true }

/-- The constructors. -/
def start : Start T → LockedFlagValueStorage T
  | .lazily defaultValue => { defaultValue := some defaultValue }
  | .eagerly value => constructLocked { defaultValue := none } value

/-- `Initialize`. -/
def initializeValues (s : LockedFlagValueStorage T) : Option (LockedFlagValueStorage T) :=
  if s.initialized then some s
  else do
    let defaultValue ← s.defaultValue
    let value := defaultValue ()
    return if s.current.isNone then s.constructLocked value else s

/-- `Get`. -/
def get (s : LockedFlagValueStorage T) : Option (LockedFlagValueStorage T × T) := do
  let s ← s.initializeValues
  let current ← s.current
  return (s, current)

/-- `GetDefault`. -/
def getDefault (s : LockedFlagValueStorage T) : Option (LockedFlagValueStorage T × T) := do
  let s ← s.initializeValues
  let default ← s.default
  return (s, default)

/-- `Set`, with the state that the observer changes. -/
def set (s : LockedFlagValueStorage T) (o : ω) (value : T) :
    Option (LockedFlagValueStorage T × ω) := do
  let s ← s.initializeValues
  let _ ← s.current
  return ({ s with current := some value, modified := true }, observer value o)

/-- `SetDefault`. -/
def setDefault (s : LockedFlagValueStorage T) (o : ω) (value : T) :
    Option (LockedFlagValueStorage T × ω) := do
  let s ← s.initializeValues
  let _ ← s.default
  let s := { s with default := some value }
  if s.modified then return (s, o)
  else
    let _ ← s.current
    return ({ s with current := some value }, observer value o)

/-- `Observe`. -/
def observe (s : LockedFlagValueStorage T) (o : ω) : Option (LockedFlagValueStorage T × ω) := do
  let s ← s.initializeValues
  let current ← s.current
  return (s, observer current o)

/-- `ExplicitlySet`. -/
def explicitlySet (s : LockedFlagValueStorage T) : Option (LockedFlagValueStorage T × Bool) := do
  let s ← s.initializeValues
  return (s, s.modified)

/-- `Restore`. -/
def restore (s : LockedFlagValueStorage T) (o : ω) (value : T) (explicitlySet : Bool) :
    Option (LockedFlagValueStorage T × ω) := do
  let s ← s.initializeValues
  let _ ← s.current
  return ({ s with current := some value, modified := explicitlySet }, observer value o)

end LockedFlagValueStorage

/-! ### The storage of atomic variables -/

/-- The `state_` of an `AtomicFlagValueStorage`. -/
inductive InitializationState
  | kUninitialized
  | kInitializing
  | kReady
deriving DecidableEq

/-- `AtomicFlagValueStorage`. -/
structure AtomicFlagValueStorage (T : Type) where
  defaultValue : Option (DefaultValueFunction T)
  state : InitializationState
  current : T
  default : T
  modified : Bool := false

namespace AtomicFlagValueStorage

/-- The constructors. -/
def start [Inhabited T] : Start T → AtomicFlagValueStorage T
  | .lazily defaultValue =>
    { defaultValue := some defaultValue
      state := .kUninitialized
      current := Inhabited.default
      default := Inhabited.default }
  | .eagerly value =>
    { defaultValue := none, state := .kReady, current := value, default := value }

/-- `Initialize`. In the state of an initialization that another thread has claimed, it waits for
that thread. -/
def initializeValues (s : AtomicFlagValueStorage T) : Option (AtomicFlagValueStorage T) :=
  if s.state = .kReady then some s
  else do
    let defaultValue ← s.defaultValue
    let value := defaultValue ()
    if s.state = .kUninitialized then
      return { s with state := .kReady, current := value, default := value }
    else none

/-- `Get`. -/
def get (s : AtomicFlagValueStorage T) : Option (AtomicFlagValueStorage T × T) := do
  let s ← s.initializeValues
  return (s, s.current)

/-- `GetDefault`. -/
def getDefault (s : AtomicFlagValueStorage T) : Option (AtomicFlagValueStorage T × T) := do
  let s ← s.initializeValues
  return (s, s.default)

/-- `Set`. -/
def set (s : AtomicFlagValueStorage T) (value : T) : Option (AtomicFlagValueStorage T) := do
  let s ← s.initializeValues
  return { s with current := value, modified := true }

/-- `SetDefault`. -/
def setDefault (s : AtomicFlagValueStorage T) (value : T) : Option (AtomicFlagValueStorage T) := do
  let s ← s.initializeValues
  let s := { s with default := value }
  return if s.modified then s else { s with current := value }

/-- `ExplicitlySet`. -/
def explicitlySet (s : AtomicFlagValueStorage T) : Option (AtomicFlagValueStorage T × Bool) := do
  let s ← s.initializeValues
  return (s, s.modified)

/-- `Restore`. -/
def restore (s : AtomicFlagValueStorage T) (value : T) (explicitlySet : Bool) :
    Option (AtomicFlagValueStorage T) := do
  let s ← s.initializeValues
  return { s with current := value, modified := explicitlySet }

end AtomicFlagValueStorage

instance : Storage (AtomicFlagValueStorage T) T where
  initializeValues := AtomicFlagValueStorage.initializeValues
  get := AtomicFlagValueStorage.get
  getDefault := AtomicFlagValueStorage.getDefault
  set := AtomicFlagValueStorage.set
  setDefault := AtomicFlagValueStorage.setDefault
  explicitlySet := AtomicFlagValueStorage.explicitlySet
  restore := AtomicFlagValueStorage.restore

/-! ### The storages of the flag types -/

/-- A storage with a lock, and the variable that its observer changes. -/
structure ObservedStorage {ω : Type} (observer : T → ω → ω) where
  storage : LockedFlagValueStorage T
  observed : ω

instance {ω : Type} (observer : T → ω → ω) : Storage (ObservedStorage observer) T where
  initializeValues s := s.storage.initializeValues.map fun storage => { s with storage }
  get s := s.storage.get.map fun r => ({ s with storage := r.1 }, r.2)
  getDefault s := s.storage.getDefault.map fun r => ({ s with storage := r.1 }, r.2)
  set s value := (s.storage.set observer s.observed value).map fun r => ⟨r.1, r.2⟩
  setDefault s value := (s.storage.setDefault observer s.observed value).map fun r => ⟨r.1, r.2⟩
  explicitlySet s := s.storage.explicitlySet.map fun r => ({ s with storage := r.1 }, r.2)
  restore s value explicitlySet :=
    (s.storage.restore observer s.observed value explicitlySet).map fun r => ⟨r.1, r.2⟩

/-- `FlagValueStorage`, which observes nothing. -/
abbrev FlagValueStorage (T : Type) : Type := ObservedStorage fun (_ : T) (o : Unit) => o

/-- The constructors. -/
def FlagValueStorage.start (start : Start T) : FlagValueStorage T := ⟨.start start, ()⟩

/-- The `emptiness_` of a `FlagValueStorage<std::string>`. -/
inductive Emptiness
  | kUnknown
  | kEmpty
  | kNotEmpty
deriving DecidableEq

/-- `Record`. -/
def record (stored : List Byte) (_ : Emptiness) : Emptiness :=
  if stored.isEmpty then .kEmpty else .kNotEmpty

/-- `FlagValueStorage<std::string>`, which records whether the value is empty. -/
abbrev StringFlagValueStorage : Type := ObservedStorage record

namespace StringFlagValueStorage

/-- The constructors. -/
def start : Start (List Byte) → StringFlagValueStorage
  | .lazily defaultValue => ⟨.start (.lazily defaultValue), .kUnknown⟩
  | .eagerly value => ⟨.start (.eagerly value), if value.isEmpty then .kEmpty else .kNotEmpty⟩

/-- `Empty`. The observer records the value and tells whether it is empty. -/
def empty (s : StringFlagValueStorage) : Option (StringFlagValueStorage × Bool) :=
  if s.observed ≠ .kUnknown then some (s, s.observed = .kEmpty)
  else
    (s.storage.observe (fun stored o => (record stored o.1, stored.isEmpty)) (s.observed, true)).map
      fun r => (⟨r.1, r.2.1⟩, r.2.2)

end StringFlagValueStorage

/-- An operation on a string flag. -/
inductive StringOperation
  | values (operation : Operation (List Byte))
  | empty

/-- One operation of the string storage. -/
def StringFlagValueStorage.step (s : StringFlagValueStorage) :
    StringOperation → Option (StringFlagValueStorage × Reply (List Byte))
  | .values operation => Storage.step s operation
  | .empty => s.empty.map fun r => (r.1, .flag r.2)

/-- The specification of an operation on a string flag. -/
def Values.stringStep (t : Values (List Byte)) :
    StringOperation → Values (List Byte) × Reply (List Byte)
  | .values operation => t.step operation
  | .empty => (t, .flag t.value.isEmpty)

/-! ### Refinement -/

/-- Every operation of the storage keeps the relation and returns what the specification returns. -/
structure Refines (σ : Type) [Storage σ T] (R : σ → Values T → Prop) : Prop where
  initializeValues {s : σ} {t : Values T} (h : R s t) :
    ∃ s', Storage.initializeValues s = some s' ∧ R s' t
  get {s : σ} {t : Values T} (h : R s t) : ∃ s', Storage.get s = some (s', t.value) ∧ R s' t
  getDefault {s : σ} {t : Values T} (h : R s t) :
    ∃ s', Storage.getDefault s = some (s', t.default) ∧ R s' t
  set {s : σ} {t : Values T} (h : R s t) (value : T) :
    ∃ s', Storage.set s value = some s' ∧ R s' (t.set value)
  setDefault {s : σ} {t : Values T} (h : R s t) (value : T) :
    ∃ s', Storage.setDefault s value = some s' ∧ R s' (t.setDefault value)
  explicitlySet {s : σ} {t : Values T} (h : R s t) :
    ∃ s', Storage.explicitlySet s = some (s', t.explicitlySet) ∧ R s' t
  restore {s : σ} {t : Values T} (h : R s t) (value : T) (explicitlySet : Bool) :
    ∃ s', Storage.restore s value explicitlySet = some s' ∧ R s' (t.restore value explicitlySet)

/-- A storage that refines the specification simulates it. -/
theorem Refines.simulates {σ : Type} [Storage σ T] {R : σ → Values T → Prop} (h : Refines σ R) :
    Simulation.Simulates (Storage.step (σ := σ)) Values.step R := by
  intro s t operation hst
  cases operation with
  | initializeValues =>
    obtain ⟨s', hs', hst'⟩ := h.initializeValues hst
    exact ⟨s', Option.map_eq_some_iff.mpr ⟨_, hs', rfl⟩, hst'⟩
  | get =>
    obtain ⟨s', hs', hst'⟩ := h.get hst
    exact ⟨s', Option.map_eq_some_iff.mpr ⟨_, hs', rfl⟩, hst'⟩
  | getDefault =>
    obtain ⟨s', hs', hst'⟩ := h.getDefault hst
    exact ⟨s', Option.map_eq_some_iff.mpr ⟨_, hs', rfl⟩, hst'⟩
  | set value =>
    obtain ⟨s', hs', hst'⟩ := h.set hst value
    exact ⟨s', Option.map_eq_some_iff.mpr ⟨_, hs', rfl⟩, hst'⟩
  | setDefault value =>
    obtain ⟨s', hs', hst'⟩ := h.setDefault hst value
    exact ⟨s', Option.map_eq_some_iff.mpr ⟨_, hs', rfl⟩, hst'⟩
  | explicitlySet =>
    obtain ⟨s', hs', hst'⟩ := h.explicitlySet hst
    exact ⟨s', Option.map_eq_some_iff.mpr ⟨_, hs', rfl⟩, hst'⟩
  | restore value explicitlySet =>
    obtain ⟨s', hs', hst'⟩ := h.restore hst value explicitlySet
    exact ⟨s', Option.map_eq_some_iff.mpr ⟨_, hs', rfl⟩, hst'⟩

/-! ### The storage with a lock -/

namespace LockedFlagValueStorage

variable {ω : Type} {observer : T → ω → ω} {s : LockedFlagValueStorage T} {t : Values T}

/-- The values have been constructed, and are those of the specification. -/
structure Ready (s : LockedFlagValueStorage T) (t : Values T) : Prop where
  initialized : s.initialized = true
  current : s.current = some t.value
  default : s.default = some t.default
  modified : s.modified = t.explicitlySet

/-- The values are those of the specification, or will be once the default has been computed. -/
def Represents (s : LockedFlagValueStorage T) (t : Values T) : Prop :=
  Ready s t ∨ ∃ defaultValue, s = start (.lazily defaultValue) ∧ t = .init (defaultValue ())

theorem represents_start (start : Start T) :
    Represents (LockedFlagValueStorage.start start) (.init start.value) := by
  cases start with
  | lazily defaultValue => exact .inr ⟨defaultValue, rfl, rfl⟩
  | eagerly value => exact .inl ⟨rfl, rfl, rfl, rfl⟩

theorem initializeValues_spec (h : Represents s t) :
    ∃ s', s.initializeValues = some s' ∧ Ready s' t := by
  rcases h with h | ⟨defaultValue, rfl, rfl⟩
  · exact ⟨s, if_pos h.initialized, h⟩
  · exact ⟨_, rfl, rfl, rfl, rfl, rfl⟩

theorem get_spec (h : Represents s t) : ∃ s', s.get = some (s', t.value) ∧ Ready s' t := by
  obtain ⟨s', hs', h⟩ := initializeValues_spec h
  exact ⟨s', by simp [get, hs', h.current], h⟩

theorem getDefault_spec (h : Represents s t) :
    ∃ s', s.getDefault = some (s', t.default) ∧ Ready s' t := by
  obtain ⟨s', hs', h⟩ := initializeValues_spec h
  exact ⟨s', by simp [getDefault, hs', h.default], h⟩

theorem set_spec (h : Represents s t) (o : ω) (value : T) :
    ∃ s', s.set observer o value = some (s', observer value o) ∧ Ready s' (t.set value) := by
  obtain ⟨s', hs', h⟩ := initializeValues_spec h
  refine ⟨{ s' with current := some value, modified := true }, ?_, h.initialized, rfl, h.default,
    rfl⟩
  simp [set, hs', h.current]

/-- The observer is called if and only if the value follows the default. -/
theorem setDefault_spec (h : Represents s t) (o : ω) (value : T) :
    ∃ s', s.setDefault observer o value =
        some (s', if t.explicitlySet then o else observer value o) ∧
      Ready s' (t.setDefault value) := by
  obtain ⟨s', hs', h⟩ := initializeValues_spec h
  cases hexplicit : t.explicitlySet with
  | true =>
    refine ⟨{ s' with default := some value }, ?_, h.initialized, ?_, rfl, h.modified⟩
    · simp [setDefault, hs', h.default, h.modified, hexplicit]
    · simp [Values.setDefault, hexplicit, h.current]
  | false =>
    refine ⟨{ s' with default := some value, current := some value }, ?_, h.initialized, ?_, rfl,
      h.modified⟩
    · simp [setDefault, hs', h.default, h.current, h.modified, hexplicit]
    · simp [Values.setDefault, hexplicit]

theorem observe_spec (h : Represents s t) (o : ω) :
    ∃ s', s.observe observer o = some (s', observer t.value o) ∧ Ready s' t := by
  obtain ⟨s', hs', h⟩ := initializeValues_spec h
  exact ⟨s', by simp [observe, hs', h.current], h⟩

theorem explicitlySet_spec (h : Represents s t) :
    ∃ s', s.explicitlySet = some (s', t.explicitlySet) ∧ Ready s' t := by
  obtain ⟨s', hs', h⟩ := initializeValues_spec h
  exact ⟨s', by simp [explicitlySet, hs', h.modified], h⟩

theorem restore_spec (h : Represents s t) (o : ω) (value : T) (explicitlySet : Bool) :
    ∃ s', s.restore observer o value explicitlySet = some (s', observer value o) ∧
      Ready s' (t.restore value explicitlySet) := by
  obtain ⟨s', hs', h⟩ := initializeValues_spec h
  refine ⟨{ s' with current := some value, modified := explicitlySet }, ?_, h.initialized, rfl,
    h.default, rfl⟩
  simp [restore, hs', h.current]

end LockedFlagValueStorage

/-- A storage with a lock, whose observer establishes a property of the current value. -/
theorem refines_observed {ω : Type} (observer : T → ω → ω) {P : ω → T → Prop}
    (hobserver : ∀ value o, P (observer value o) value) :
    Refines (ObservedStorage observer) fun s t =>
      s.storage.Represents t ∧ P s.observed t.value where
  initializeValues := by
    rintro s t ⟨h, hobserved⟩
    obtain ⟨s', hs', h⟩ := LockedFlagValueStorage.initializeValues_spec h
    exact ⟨⟨s', s.observed⟩, Option.map_eq_some_iff.mpr ⟨_, hs', rfl⟩, .inl h, hobserved⟩
  get := by
    rintro s t ⟨h, hobserved⟩
    obtain ⟨s', hs', h⟩ := LockedFlagValueStorage.get_spec h
    exact ⟨⟨s', s.observed⟩, Option.map_eq_some_iff.mpr ⟨_, hs', rfl⟩, .inl h, hobserved⟩
  getDefault := by
    rintro s t ⟨h, hobserved⟩
    obtain ⟨s', hs', h⟩ := LockedFlagValueStorage.getDefault_spec h
    exact ⟨⟨s', s.observed⟩, Option.map_eq_some_iff.mpr ⟨_, hs', rfl⟩, .inl h, hobserved⟩
  set := by
    rintro s t ⟨h, -⟩ value
    obtain ⟨s', hs', h⟩ := LockedFlagValueStorage.set_spec h s.observed value
    exact ⟨⟨s', observer value s.observed⟩, Option.map_eq_some_iff.mpr ⟨_, hs', rfl⟩, .inl h,
      hobserver ..⟩
  setDefault := by
    rintro s t ⟨h, hobserved⟩ value
    obtain ⟨s', hs', h⟩ := LockedFlagValueStorage.setDefault_spec h s.observed value
    refine ⟨⟨s', _⟩, Option.map_eq_some_iff.mpr ⟨_, hs', rfl⟩, .inl h, ?_⟩
    cases hexplicit : t.explicitlySet with
    | true => simpa [Values.setDefault, hexplicit] using hobserved
    | false => simpa [Values.setDefault, hexplicit] using hobserver value s.observed
  explicitlySet := by
    rintro s t ⟨h, hobserved⟩
    obtain ⟨s', hs', h⟩ := LockedFlagValueStorage.explicitlySet_spec h
    exact ⟨⟨s', s.observed⟩, Option.map_eq_some_iff.mpr ⟨_, hs', rfl⟩, .inl h, hobserved⟩
  restore := by
    rintro s t ⟨h, -⟩ value explicitlySet
    obtain ⟨s', hs', h⟩ := LockedFlagValueStorage.restore_spec h s.observed value explicitlySet
    exact ⟨⟨s', observer value s.observed⟩, Option.map_eq_some_iff.mpr ⟨_, hs', rfl⟩, .inl h,
      hobserver ..⟩

/-- The storage with a lock, whatever its observer does. -/
theorem refines_locked {ω : Type} (observer : T → ω → ω) :
    Refines (ObservedStorage observer) fun s t => s.storage.Represents t ∧ True :=
  refines_observed observer (P := fun _ _ => True) fun _ _ => trivial

/-! ### The storage of atomic variables -/

namespace AtomicFlagValueStorage

variable {s : AtomicFlagValueStorage T} {t : Values T}

/-- The values have been computed, and are those of the specification. -/
structure Ready (s : AtomicFlagValueStorage T) (t : Values T) : Prop where
  state : s.state = .kReady
  current : s.current = t.value
  default : s.default = t.default
  modified : s.modified = t.explicitlySet

/-- The values are those of the specification, or will be once the default has been computed. -/
def Represents [Inhabited T] (s : AtomicFlagValueStorage T) (t : Values T) : Prop :=
  Ready s t ∨ ∃ defaultValue, s = start (.lazily defaultValue) ∧ t = .init (defaultValue ())

theorem represents_start [Inhabited T] (start : Start T) :
    Represents (AtomicFlagValueStorage.start start) (.init start.value) := by
  cases start with
  | lazily defaultValue => exact .inr ⟨defaultValue, rfl, rfl⟩
  | eagerly value => exact .inl ⟨rfl, rfl, rfl, rfl⟩

theorem initializeValues_spec [Inhabited T] (h : Represents s t) :
    ∃ s', s.initializeValues = some s' ∧ Ready s' t := by
  rcases h with h | ⟨defaultValue, rfl, rfl⟩
  · exact ⟨s, if_pos h.state, h⟩
  · exact ⟨_, rfl, rfl, rfl, rfl, rfl⟩

end AtomicFlagValueStorage

/-- The storage of the flags of some built-in types. -/
theorem refines_atomic (T : Type) [Inhabited T] :
    Refines (AtomicFlagValueStorage T) AtomicFlagValueStorage.Represents where
  initializeValues h := by
    obtain ⟨s', hs', h⟩ := AtomicFlagValueStorage.initializeValues_spec h
    exact ⟨s', hs', .inl h⟩
  get h := by
    obtain ⟨s', hs', h⟩ := AtomicFlagValueStorage.initializeValues_spec h
    refine ⟨s', ?_, .inl h⟩
    simp [Storage.get, AtomicFlagValueStorage.get, hs', h.current]
  getDefault h := by
    obtain ⟨s', hs', h⟩ := AtomicFlagValueStorage.initializeValues_spec h
    refine ⟨s', ?_, .inl h⟩
    simp [Storage.getDefault, AtomicFlagValueStorage.getDefault, hs', h.default]
  set h value := by
    obtain ⟨s', hs', h⟩ := AtomicFlagValueStorage.initializeValues_spec h
    refine ⟨{ s' with current := value, modified := true }, ?_, .inl ⟨h.state, rfl, h.default, rfl⟩⟩
    simp [Storage.set, AtomicFlagValueStorage.set, hs']
  setDefault {s t} h value := by
    obtain ⟨s', hs', h⟩ := AtomicFlagValueStorage.initializeValues_spec h
    cases hexplicit : t.explicitlySet with
    | true =>
      refine ⟨{ s' with default := value }, ?_, .inl ⟨h.state, ?_, rfl, h.modified⟩⟩
      · simp [Storage.setDefault, AtomicFlagValueStorage.setDefault, hs', h.modified, hexplicit]
      · simp [Values.setDefault, hexplicit, h.current]
    | false =>
      refine ⟨{ s' with default := value, current := value }, ?_,
        .inl ⟨h.state, ?_, rfl, h.modified⟩⟩
      · simp [Storage.setDefault, AtomicFlagValueStorage.setDefault, hs', h.modified, hexplicit]
      · simp [Values.setDefault, hexplicit]
  explicitlySet h := by
    obtain ⟨s', hs', h⟩ := AtomicFlagValueStorage.initializeValues_spec h
    refine ⟨s', ?_, .inl h⟩
    simp [Storage.explicitlySet, AtomicFlagValueStorage.explicitlySet, hs', h.modified]
  restore h value explicitlySet := by
    obtain ⟨s', hs', h⟩ := AtomicFlagValueStorage.initializeValues_spec h
    refine ⟨{ s' with current := value, modified := explicitlySet }, ?_,
      .inl ⟨h.state, rfl, h.default, rfl⟩⟩
    simp [Storage.restore, AtomicFlagValueStorage.restore, hs']

/-! ### The storage of strings -/

/-- What is known about the emptiness of a value is right. -/
def Knows (emptiness : Emptiness) (value : List Byte) : Prop :=
  emptiness = .kUnknown ∨ emptiness = if value.isEmpty then .kEmpty else .kNotEmpty

theorem knows_record (value : List Byte) (emptiness : Emptiness) :
    Knows (record value emptiness) value := .inr rfl

namespace StringFlagValueStorage

/-- The values are those of the specification, and so is what is known about the emptiness. -/
def Represents (s : StringFlagValueStorage) (t : Values (List Byte)) : Prop :=
  s.storage.Represents t ∧ Knows s.observed t.value

theorem represents_start (start : Start (List Byte)) :
    Represents (StringFlagValueStorage.start start) (.init start.value) := by
  cases start with
  | lazily defaultValue => exact ⟨LockedFlagValueStorage.represents_start (.lazily _), .inl rfl⟩
  | eagerly value => exact ⟨LockedFlagValueStorage.represents_start (.eagerly _), .inr rfl⟩

/-- `Empty` says whether the current value is empty. -/
theorem empty_spec {s : StringFlagValueStorage} {t : Values (List Byte)} (h : Represents s t) :
    ∃ s', s.empty = some (s', t.value.isEmpty) ∧ Represents s' t := by
  obtain ⟨hstorage, hknows⟩ := h
  by_cases hunknown : s.observed = .kUnknown
  · rw [empty, if_neg (not_not.mpr hunknown)]
    obtain ⟨s', hs', h⟩ := LockedFlagValueStorage.observe_spec hstorage (s.observed, true)
    exact ⟨⟨s', record t.value s.observed⟩, Option.map_eq_some_iff.mpr ⟨_, hs', rfl⟩, .inl h,
      knows_record _ s.observed⟩
  · refine ⟨s, ?_, hstorage, hknows⟩
    rw [empty, if_pos hunknown, hknows.resolve_left hunknown]
    cases t.value.isEmpty <;> rfl

end StringFlagValueStorage

theorem refines_string : Refines StringFlagValueStorage StringFlagValueStorage.Represents :=
  refines_observed record knows_record

theorem simulates_string :
    Simulation.Simulates StringFlagValueStorage.step Values.stringStep
      StringFlagValueStorage.Represents := by
  intro s t operation hst
  cases operation with
  | values operation => exact refines_string.simulates s t operation hst
  | empty =>
    obtain ⟨s', hs', hst'⟩ := StringFlagValueStorage.empty_spec hst
    exact ⟨s', Option.map_eq_some_iff.mpr ⟨_, hs', rfl⟩, hst'⟩

/-- Whether it is constructed from a value or from a function, a storage with a lock and any
observer, or of atomic variables, answers every sequence of operations as the specification that
starts with this value. So does the storage of strings, also with `Empty` among the operations; and
in every state that it reaches, `Empty` says whether the value that `Get` returns is empty. -/
theorem storages_refine {T ω : Type} [Inhabited T] (start : Start T) (observer : T → ω → ω) (o : ω)
    (operations : List (Operation T)) (stringStart : Start (List Byte))
    (stringOperations : List StringOperation) :
    (∃ s, trace Storage.step (⟨.start start, o⟩ : ObservedStorage observer) operations =
      some (s, (execute Values.step (.init start.value) operations).2)) ∧
    (∃ s, trace Storage.step (AtomicFlagValueStorage.start start) operations =
      some (s, (execute Values.step (.init start.value) operations).2)) ∧
    ∃ s, trace StringFlagValueStorage.step (.start stringStart) stringOperations =
        some (s, (execute Values.stringStep (.init stringStart.value) stringOperations).2) ∧
      ∃ s₁ s₂ value, Storage.get s = some (s₁, value) ∧ s.empty = some (s₂, value.isEmpty) := by
  have hstart : (⟨.start start, o⟩ : ObservedStorage observer).storage.Represents
    (.init start.value) ∧ True := ⟨LockedFlagValueStorage.represents_start start, trivial⟩
  obtain ⟨locked, hlocked, -⟩ := (refines_locked observer).simulates.trace_eq operations hstart
  obtain ⟨atomic, hatomic, -⟩ := (refines_atomic T).simulates.trace_eq operations
    (AtomicFlagValueStorage.represents_start start)
  obtain ⟨s, hs, hst⟩ := simulates_string.trace_eq stringOperations
    (StringFlagValueStorage.represents_start stringStart)
  obtain ⟨s₁, hget, -⟩ := refines_string.get hst
  obtain ⟨s₂, hempty, -⟩ := StringFlagValueStorage.empty_spec hst
  exact ⟨⟨locked, hlocked⟩, ⟨atomic, hatomic⟩, s, hs, s₁, s₂, _, hget, hempty⟩

end FlagValues

end NgLog
