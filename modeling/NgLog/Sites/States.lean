import Mathlib.Data.List.Count
import NgLog.Sites.Lookups

/-!
# The states of call sites

A site publishes one state for each type, in its next free slot or, when all slots are taken, in a
map. A call that does not find a state without the lock constructs one, and publishes it under the
lock unless there is one by then. In this case it destroys the state that it has constructed.

What is published stays. So a call that has found a state, at whatever point of its search, has
found the one that every other call finds.

## Main definitions

* `SiteImpl.Published`, `SiteInvariant` — the states of a site
* `StateInvariant`, `StatePhase.Known` — what holds of all states, and what is known of a call
* `StateGuarantee` — published states stay, and a call publishes and destroys only its own

## Main results

* `SiteInvariant.unique` — a type has one state
* `SiteInvariant.announce`, `SiteInvariant.setOverflow` — a state is added
* `stateNext_spec` — the steps keep the invariant
-/

namespace NgLog

namespace Sites

variable {TypeInfo T Call : Type} {p : Platform TypeInfo T} {call : Call}

/-! ### The states of one site -/

/-- The state is published for the type. -/
def SiteImpl.Published (p : Platform TypeInfo T) (impl : SiteImpl TypeInfo T) (type : T)
    (object : Object) : Prop :=
  (∃ i slotType, impl.slots i = ⟨some slotType, some object⟩ ∧ p.typeOf slotType = type) ∨
    impl.overflow type = some object

/-- The first slots have types other than this one. -/
def SiteImpl.Searched (p : Platform TypeInfo T) (impl : SiteImpl TypeInfo T) (type : T) (n : ℕ) :
    Prop :=
  ∀ i < n, ∃ slotType, (impl.slots i).type = some slotType ∧ p.typeOf slotType ≠ type

/-- The slots are taken in order, each by a type of its own, and the map has the states of other
types once all slots are taken. -/
structure SiteInvariant (p : Platform TypeInfo T) (impl : SiteImpl TypeInfo T) : Prop where
  filled : ∃ n ≤ kStateSlots,
    (∀ i < n, ∃ slotType object, impl.slots i = ⟨some slotType, some object⟩) ∧
      ∀ i, n ≤ i → (impl.slots i).type = none
  distinct : ∀ i j slotType slotType', (impl.slots i).type = some slotType →
    (impl.slots j).type = some slotType' → p.typeOf slotType = p.typeOf slotType' → i = j
  overflow : ∀ type object, impl.overflow type = some object → impl.Searched p type kStateSlots

section Site

variable {impl : SiteImpl TypeInfo T} {type : TypeInfo} {object : Object} {i : ℕ}

theorem siteInvariant_empty : SiteInvariant p ⟨fun _ => ⟨none, none⟩, fun _ => none⟩ where
  filled := ⟨0, Nat.zero_le _, fun _ hi => absurd hi (Nat.not_lt_zero _), fun _ _ => rfl⟩
  distinct _ _ _ _ h := by cases h
  overflow _ _ h := by cases h

/-- A slot with a type is one of the slots that are searched, and has a state. -/
theorem SiteInvariant.slot (h : SiteInvariant p impl) (htype : (impl.slots i).type = some type) :
    i < kStateSlots ∧ ∃ object, impl.slots i = ⟨some type, some object⟩ := by
  obtain ⟨n, hn, hfilled, hfree⟩ := h.filled
  by_cases hi : i < n
  · obtain ⟨slotType, object, hslot⟩ := hfilled i hi
    rw [hslot] at htype
    cases htype
    exact ⟨Nat.lt_of_lt_of_le hi hn, object, hslot⟩
  · rw [hfree i (Nat.le_of_not_lt hi)] at htype
    cases htype

/-- A type has one state. -/
theorem SiteInvariant.unique (h : SiteInvariant p impl) {type : T} {object object' : Object}
    (hobject : impl.Published p type object) (hobject' : impl.Published p type object') :
    object = object' := by
  have hmixed : ∀ i slotType o o', impl.slots i = ⟨some slotType, some o⟩ →
      p.typeOf slotType = type → impl.overflow type ≠ some o' := by
    intro i slotType o o' hslot hsame hoverflow
    have htype : (impl.slots i).type = some slotType := by rw [hslot]
    obtain ⟨slotType', htype', hne⟩ := h.overflow type o' hoverflow i (h.slot htype).1
    cases htype.symm.trans htype'
    exact hne hsame
  rcases hobject with ⟨i, slotType, hslot, hsame⟩ | hoverflow
  · rcases hobject' with ⟨j, slotType', hslot', hsame'⟩ | hoverflow'
    · obtain rfl := h.distinct i j slotType slotType' (by rw [hslot]) (by rw [hslot'])
        (hsame.trans hsame'.symm)
      cases hslot.symm.trans hslot'
      rfl
    · exact absurd hoverflow' (hmixed i slotType object object' hslot hsame)
  · rcases hobject' with ⟨j, slotType', hslot', hsame'⟩ | hoverflow'
    · exact absurd hoverflow (hmixed j slotType' object' object hslot' hsame')
    · exact Option.some.inj (hoverflow.symm.trans hoverflow')

/-- A slot without a type may have any state. -/
theorem SiteInvariant.fill (h : SiteInvariant p impl) (hfree : (impl.slots i).type = none)
    (state : Option Object) :
    SiteInvariant p ⟨Function.update impl.slots i ⟨none, state⟩, impl.overflow⟩ ∧
      ∀ t o, SiteImpl.Published p ⟨Function.update impl.slots i ⟨none, state⟩, impl.overflow⟩ t o ↔
        impl.Published p t o := by
  have htype : ∀ j, (Function.update impl.slots i ⟨none, state⟩ j).type = (impl.slots j).type := by
    intro j
    by_cases hj : j = i
    · subst hj
      rw [Function.update_self, hfree]
    · rw [Function.update_of_ne hj]
  have hslot : ∀ j slotType object,
      Function.update impl.slots i ⟨none, state⟩ j = ⟨some slotType, some object⟩ ↔
        impl.slots j = ⟨some slotType, some object⟩ := by
    intro j slotType object
    by_cases hj : j = i
    · subst hj
      rw [Function.update_self]
      refine iff_of_false (fun heq => by cases heq) fun heq => ?_
      rw [heq] at hfree
      cases hfree
    · rw [Function.update_of_ne hj]
  refine ⟨⟨?_, ?_, ?_⟩, fun t o => ?_⟩
  · obtain ⟨n, hn, hfilled, hrest⟩ := h.filled
    refine ⟨n, hn, fun j hj => ?_, fun j hj => (htype j).trans (hrest j hj)⟩
    obtain ⟨slotType, object, hj⟩ := hfilled j hj
    exact ⟨slotType, object, (hslot j slotType object).mpr hj⟩
  · intro j k slotType slotType' hj hk
    exact h.distinct j k slotType slotType' ((htype j).symm.trans hj) ((htype k).symm.trans hk)
  · intro t o ho j hj
    obtain ⟨slotType, hsearched, hne⟩ := h.overflow t o ho j hj
    exact ⟨slotType, (htype j).trans hsearched, hne⟩
  · refine or_congr ?_ Iff.rfl
    simp only [hslot]

/-- The next free slot gets a type that no slot has. -/
theorem SiteInvariant.announce (h : SiteInvariant p impl) (hi : i < kStateSlots)
    (hslot : impl.slots i = ⟨none, some object⟩) (hsearched : impl.Searched p (p.typeOf type) i) :
    SiteInvariant p ⟨Function.update impl.slots i ⟨some type, some object⟩, impl.overflow⟩ ∧
      ∀ t o, SiteImpl.Published p
          ⟨Function.update impl.slots i ⟨some type, some object⟩, impl.overflow⟩ t o ↔
        impl.Published p t o ∨ t = p.typeOf type ∧ o = object := by
  obtain ⟨n, hn, hfilled, hfree⟩ := h.filled
  have hsame : n = i := by
    refine Nat.le_antisymm (Nat.le_of_not_lt fun hlt => ?_) (Nat.le_of_not_lt fun hlt => ?_)
    · obtain ⟨slotType, object', htaken⟩ := hfilled i hlt
      cases hslot.symm.trans htaken
    · obtain ⟨slotType, htype, -⟩ := hsearched n hlt
      cases (hfree n (Nat.le_refl n)).symm.trans htype
  subst hsame
  have hnone : ∀ t o, impl.overflow t ≠ some o := by
    intro t o ho
    obtain ⟨slotType, htype, -⟩ := h.overflow t o ho n hi
    rw [hslot] at htype
    cases htype
  have hother : ∀ j slotType, (impl.slots j).type = some slotType →
      j ≠ n ∧ p.typeOf slotType ≠ p.typeOf type := by
    intro j slotType htype
    have hj : j < n := Nat.lt_of_not_le fun hle => by cases htype.symm.trans (hfree j hle)
    obtain ⟨slotType', htype', hne⟩ := hsearched j hj
    cases htype.symm.trans htype'
    exact ⟨Nat.ne_of_lt hj, hne⟩
  have hcases : ∀ j slotType,
      (Function.update impl.slots n ⟨some type, some object⟩ j).type = some slotType →
        j = n ∧ slotType = type ∨ (impl.slots j).type = some slotType := by
    intro j slotType htype
    by_cases hj : j = n
    · subst hj
      rw [Function.update_self] at htype
      cases htype
      exact .inl ⟨rfl, rfl⟩
    · rw [Function.update_of_ne hj] at htype
      exact .inr htype
  refine ⟨⟨⟨n + 1, hi, fun j hj => ?_, fun j hj => ?_⟩, ?_, ?_⟩, fun t o => ?_⟩
  · by_cases hjn : j = n
    · subst hjn
      exact ⟨type, object, Function.update_self ..⟩
    · obtain ⟨slotType, object', htaken⟩ := hfilled j (by omega)
      exact ⟨slotType, object', by rw [← htaken]; exact Function.update_of_ne hjn ..⟩
  · dsimp only
    rw [Function.update_of_ne (by omega)]
    exact hfree j (by omega)
  · intro j k slotType slotType' hj hk heq
    rcases hcases j slotType hj with ⟨rfl, rfl⟩ | htaken
    · rcases hcases k slotType' hk with ⟨rfl, rfl⟩ | htaken'
      · rfl
      · exact absurd heq.symm (hother k slotType' htaken').2
    · rcases hcases k slotType' hk with ⟨rfl, rfl⟩ | htaken'
      · exact absurd heq (hother j slotType htaken).2
      · exact h.distinct j k slotType slotType' htaken htaken' heq
  · exact fun t o ho => absurd ho (hnone t o)
  · constructor
    · rintro (⟨j, slotType, htaken, rfl⟩ | ho)
      · dsimp only at htaken
        by_cases hj : j = n
        · subst hj
          rw [Function.update_self] at htaken
          cases htaken
          exact .inr ⟨rfl, rfl⟩
        · rw [Function.update_of_ne hj] at htaken
          exact .inl (.inl ⟨j, slotType, htaken, rfl⟩)
      · exact .inl (.inr ho)
    · rintro ((⟨j, slotType, htaken, rfl⟩ | ho) | ⟨rfl, rfl⟩)
      · have hj := (hother j slotType (by rw [htaken])).1
        exact .inl ⟨j, slotType, by rw [← htaken]; exact Function.update_of_ne hj .., rfl⟩
      · exact .inr ho
      · exact .inl ⟨n, type, Function.update_self .., rfl⟩

/-- The map gets a type that no slot has, once all slots are taken. -/
theorem SiteInvariant.setOverflow [DecidableEq T] (h : SiteInvariant p impl) {type : T}
    (hsearched : impl.Searched p type kStateSlots) (hnone : impl.overflow type = none) :
    SiteInvariant p ⟨impl.slots, Function.update impl.overflow type (some object)⟩ ∧
      ∀ t o, SiteImpl.Published p
          ⟨impl.slots, Function.update impl.overflow type (some object)⟩ t o ↔
        impl.Published p t o ∨ t = type ∧ o = object := by
  refine ⟨⟨h.filled, h.distinct, fun t o ho => ?_⟩, fun t o => ?_⟩
  · dsimp only at ho
    by_cases ht : t = type
    · subst ht
      exact hsearched
    · rw [Function.update_of_ne ht] at ho
      exact h.overflow t o ho
  · rw [SiteImpl.Published, SiteImpl.Published, or_assoc]
    refine or_congr Iff.rfl ?_
    dsimp only
    by_cases ht : t = type
    · subst ht
      rw [Function.update_self, hnone]
      simp [eq_comm]
    · rw [Function.update_of_ne ht]
      simp [ht]

end Site

/-! ### What is known -/

variable {m m' : Memory TypeInfo T Call}

/-- The state is published at the site for the type. -/
def Memory.Published (p : Platform TypeInfo T) (m : Memory TypeInfo T Call) (site : ℕ) (type : T)
    (object : Object) : Prop :=
  (m.impls site).Published p type object

/-- Published states have been constructed and not destroyed, and none is destroyed twice. -/
structure StateInvariant (p : Platform TypeInfo T) (m : Memory TypeInfo T Call) : Prop where
  impls : ∀ site, SiteInvariant p (m.impls site)
  published : ∀ site type object, m.Published p site type object →
    object < m.constructions.length ∧ object ∉ m.destroyed
  destroyed : ∀ object ∈ m.destroyed, object < m.constructions.length
  nodup : m.destroyed.Nodup

/-- The call has constructed the state, and has neither published nor destroyed it. -/
structure Memory.Owns (p : Platform TypeInfo T) (m : Memory TypeInfo T Call) (call : Call)
    (object : Object) : Prop where
  constructed : m.constructions[object]? = some call
  kept : object ∉ m.destroyed
  unpublished : ∀ site type, ¬m.Published p site type object

/-- The call has found what is published, which is its own state or not. -/
def Memory.Decided (p : Platform TypeInfo T) (m : Memory TypeInfo T Call) (call : Call) (site : ℕ)
    (type : TypeInfo) (constructed : Object) (state : Option Object) : Prop :=
  ∃ object, state = some object ∧ m.Published p site (p.typeOf type) object ∧
    m.constructions[constructed]? = some call ∧ (object ≠ constructed → m.Owns p call constructed)

/-- What is known of a call of `State`. -/
def StatePhase.Known (p : Platform TypeInfo T) (call : Call) (m : Memory TypeInfo T Call) :
    StatePhase TypeInfo → Prop
  | .scanning .. | .constructing .. => True
  | .loading site type i => ∃ slotType object,
    m.slot site i = ⟨some slotType, some object⟩ ∧ p.typeOf slotType = p.typeOf type
  | .locking _ _ constructed => m.Owns p call constructed
  | .publishing site type constructed i => m.mutex = some call ∧ m.Owns p call constructed ∧
    (m.impls site).Searched p (p.typeOf type) i ∧ i ≤ kStateSlots
  | .filling site type constructed i => m.mutex = some call ∧ m.Owns p call constructed ∧
    (m.impls site).Searched p (p.typeOf type) i ∧ i < kStateSlots ∧ (m.slot site i).type = none
  | .announcing site type constructed i => m.mutex = some call ∧ m.Owns p call constructed ∧
    (m.impls site).Searched p (p.typeOf type) i ∧ i < kStateSlots ∧
      m.slot site i = ⟨none, some constructed⟩
  | .overflowing site type constructed => m.mutex = some call ∧ m.Owns p call constructed ∧
    (m.impls site).Searched p (p.typeOf type) kStateSlots
  | .unlocking site type constructed state =>
    m.mutex = some call ∧ m.Decided p call site type constructed state
  | .deciding site type constructed state => m.Decided p call site type constructed state
  | .returned site type none state =>
    ∃ object, state = some object ∧ m.Published p site (p.typeOf type) object
  | .returned site type (some constructed) state =>
    ∃ object, state = some object ∧ m.Published p site (p.typeOf type) object ∧
      m.constructions[constructed]? = some call ∧
        m.destroyed.count constructed = if constructed = object then 0 else 1

/-- What a step of a call guarantees to the states of the others. -/
structure StateGuarantee (p : Platform TypeInfo T) (call : Call) (m m' : Memory TypeInfo T Call) :
    Prop where
  impls : m.mutex ≠ some call → m'.impls = m.impls
  slots : ∀ site i slotType, (m.slot site i).type = some slotType → m'.slot site i = m.slot site i
  published : ∀ site type object, m.Published p site type object → m'.Published p site type object
  own : ∀ site type object, m'.Published p site type object →
    m.Published p site type object ∨ m.constructions[object]? = some call
  constructions : m.constructions <+: m'.constructions
  destroyed : ∀ object other, other ≠ call → m.constructions[object]? = some other →
    m'.destroyed.count object = m.destroyed.count object

/-- A step that leaves the sites alone. -/
theorem StateGuarantee.of_impls (himpls : m'.impls = m.impls)
    (hconstructions : m.constructions <+: m'.constructions)
    (hdestroyed : m'.destroyed = m.destroyed) :
    StateGuarantee p call m m' where
  impls _ := himpls
  slots site i slotType _ := by rw [Memory.slot, Memory.slot, himpls]
  published site type object h := by rwa [Memory.Published, himpls]
  own site type object h := by
    rw [Memory.Published, himpls] at h
    exact .inl h
  constructions := hconstructions
  destroyed object other _ _ := by rw [hdestroyed]

section Stable

variable {other : Call} (hne : other ≠ call) (h : StateGuarantee p call m m')

include hne h

theorem Memory.Owns.stable {object : Object} (howns : m.Owns p other object) :
    m'.Owns p other object where
  constructed := getElem?_of_prefix h.constructions howns.constructed
  kept hmem := by
    have hcount := h.destroyed object other hne howns.constructed
    rw [List.count_eq_zero_of_not_mem howns.kept] at hcount
    exact List.count_eq_zero.mp hcount hmem
  unpublished site type hpublished := by
    rcases h.own site type object hpublished with hpublished | hown
    · exact howns.unpublished site type hpublished
    · exact hne (Option.some.inj (howns.constructed.symm.trans hown))

theorem Memory.Decided.stable {site : ℕ} {type : TypeInfo} {constructed : Object}
    {state : Option Object} (hdecided : m.Decided p other site type constructed state) :
    m'.Decided p other site type constructed state := by
  obtain ⟨object, hstate, hpublished, hconstructed, howns⟩ := hdecided
  exact ⟨object, hstate, h.published _ _ _ hpublished,
    getElem?_of_prefix h.constructions hconstructed, fun hobject => (howns hobject).stable hne h⟩

/-- What is known of a call survives the steps of the others. While it holds the lock, they leave
the sites alone. -/
theorem StatePhase.Known.stable (hmutex : LookupGuarantee call m m') {phase : StatePhase TypeInfo}
    (hknown : phase.Known p other m) : phase.Known p other m' := by
  have hlocked (hlock : m.mutex = some other) : m'.mutex = some other ∧ m'.impls = m.impls :=
    ⟨hmutex.mutex other hne hlock, h.impls fun heq => hne (Option.some.inj (hlock.symm.trans heq))⟩
  cases phase with
  | scanning => trivial
  | constructing => trivial
  | loading site type i =>
    obtain ⟨slotType, object, hslot, hsame⟩ := hknown
    exact ⟨slotType, object, by rw [h.slots site i slotType (by rw [hslot]), hslot], hsame⟩
  | locking => exact Memory.Owns.stable hne h hknown
  | publishing site type constructed i =>
    obtain ⟨hlock, howns, hsearched, hi⟩ := hknown
    obtain ⟨hlock', himpls⟩ := hlocked hlock
    exact ⟨hlock', howns.stable hne h, by rwa [himpls], hi⟩
  | filling site type constructed i =>
    obtain ⟨hlock, howns, hsearched, hi, hfree⟩ := hknown
    obtain ⟨hlock', himpls⟩ := hlocked hlock
    exact ⟨hlock', howns.stable hne h, by rwa [himpls], hi, by rwa [Memory.slot, himpls]⟩
  | announcing site type constructed i =>
    obtain ⟨hlock, howns, hsearched, hi, hslot⟩ := hknown
    obtain ⟨hlock', himpls⟩ := hlocked hlock
    exact ⟨hlock', howns.stable hne h, by rwa [himpls], hi, by rwa [Memory.slot, himpls]⟩
  | overflowing site type constructed =>
    obtain ⟨hlock, howns, hsearched⟩ := hknown
    obtain ⟨hlock', himpls⟩ := hlocked hlock
    exact ⟨hlock', howns.stable hne h, by rwa [himpls]⟩
  | unlocking => exact ⟨hmutex.mutex other hne hknown.1, hknown.2.stable hne h⟩
  | deciding => exact Memory.Decided.stable hne h hknown
  | returned site type constructed state =>
    cases constructed with
    | none =>
      obtain ⟨object, hstate, hpublished⟩ := hknown
      exact ⟨object, hstate, h.published _ _ _ hpublished⟩
    | some constructed =>
      obtain ⟨object, hstate, hpublished, hconstructed, hcount⟩ := hknown
      exact ⟨object, hstate, h.published _ _ _ hpublished,
        getElem?_of_prefix h.constructions hconstructed,
        (h.destroyed constructed other hne hconstructed).trans hcount⟩

end Stable

/-! ### Steps -/

/-- The holder of the lock changes a site, and publishes nothing but its own states. -/
theorem StateInvariant.update (hm : StateInvariant p m) (hlock : m.mutex = some call) {site : ℕ}
    {impl : SiteImpl TypeInfo T} (hsite : SiteInvariant p impl)
    (hslots : ∀ i slotType, (m.slot site i).type = some slotType → impl.slots i = m.slot site i)
    (hkeep : ∀ t o, m.Published p site t o → impl.Published p t o)
    (hown : ∀ t o, impl.Published p t o → m.Published p site t o ∨ m.Owns p call o) :
    StateInvariant p { m with impls := Function.update m.impls site impl } ∧
      StateGuarantee p call m { m with impls := Function.update m.impls site impl } := by
  let m' := { m with impls := Function.update m.impls site impl }
  have hself : m'.impls site = impl := Function.update_self ..
  have hother : ∀ site', site' ≠ site → m'.impls site' = m.impls site' := fun site' hne =>
    Function.update_of_ne hne ..
  have hpublished : ∀ site' t o, m'.Published p site' t o →
      m.Published p site' t o ∨ m.Owns p call o := by
    intro site' t o ho
    by_cases hne : site' = site
    · subst hne
      rw [Memory.Published, hself] at ho
      exact hown t o ho
    · rw [Memory.Published, hother site' hne] at ho
      exact .inl ho
  refine ⟨⟨fun site' => ?_, fun site' t o ho => ?_, hm.destroyed, hm.nodup⟩,
    ⟨fun hne => absurd hlock hne, fun site' i slotType htype => ?_, fun site' t o ho => ?_,
      fun site' t o ho => (hpublished site' t o ho).imp_right fun howns => howns.constructed,
      List.prefix_refl _, fun _ _ _ _ => rfl⟩⟩
  · by_cases hne : site' = site
    · subst hne
      exact hself.symm ▸ hsite
    · exact (hother site' hne).symm ▸ hm.impls site'
  · rcases hpublished site' t o ho with ho | howns
    · exact hm.published site' t o ho
    · exact ⟨(List.getElem?_eq_some_iff.mp howns.constructed).1, howns.kept⟩
  · by_cases hne : site' = site
    · subst hne
      exact (congrArg (fun impl : SiteImpl TypeInfo T => impl.slots i) hself).trans
        (hslots i slotType htype)
    · exact congrArg (fun impl : SiteImpl TypeInfo T => impl.slots i) (hother site' hne)
  · by_cases hne : site' = site
    · subst hne
      change (m'.impls site').Published p t o
      rw [hself]
      exact hkeep t o ho
    · change (m'.impls site').Published p t o
      rw [hother site' hne]
      exact ho

/-- The holder of the lock writes the state of a slot that has no type. -/
theorem StateInvariant.fill (hm : StateInvariant p m) (hlock : m.mutex = some call) {site i : ℕ}
    (hfree : (m.slot site i).type = none) (state : Option Object) {type : T}
    (hsearched : (m.impls site).Searched p type i) :
    let m' := m.setSlot site i ⟨none, state⟩
    StateInvariant p m' ∧ StateGuarantee p call m m' ∧
      (∀ site' t o, m'.Published p site' t o ↔ m.Published p site' t o) ∧
        m'.slot site i = ⟨none, state⟩ ∧ (m'.impls site).Searched p type i := by
  intro m'
  obtain ⟨hsite, hpublished⟩ := (hm.impls site).fill hfree state
  have hself : m'.impls site = ⟨Function.update (m.impls site).slots i ⟨none, state⟩,
    (m.impls site).overflow⟩ := Function.update_self ..
  have hslot : ∀ j ≠ i, (m'.impls site).slots j = m.slot site j := by
    intro j hj
    rw [hself]
    exact Function.update_of_ne hj ..
  have htaken : ∀ j slotType, (m.slot site j).type = some slotType →
      Function.update (m.impls site).slots i ⟨none, state⟩ j = m.slot site j := by
    intro j slotType htype
    refine Function.update_of_ne ?_ ..
    rintro rfl
    cases hfree.symm.trans htype
  obtain ⟨hm', hguarantee⟩ := hm.update hlock hsite htaken (fun t o h => (hpublished t o).mpr h)
    fun t o h => .inl ((hpublished t o).mp h)
  refine ⟨hm', hguarantee, fun site' t o => ?_, ?_, fun j hj => ?_⟩
  · by_cases hne : site' = site
    · subst hne
      rw [Memory.Published, hself]
      exact hpublished t o
    · rw [Memory.Published, show m'.impls site' = m.impls site' from Function.update_of_ne hne ..]
      exact Iff.rfl
  · rw [Memory.slot, hself]
    exact Function.update_self ..
  · obtain ⟨slotType, htype, hne⟩ := hsearched j hj
    exact ⟨slotType, (congrArg Slot.type (hslot j (Nat.ne_of_lt hj))).trans htype, hne⟩

/-- The holder of the lock publishes its state in the next free slot. -/
theorem StateInvariant.announce (hm : StateInvariant p m) (hlock : m.mutex = some call)
    {site i : ℕ} {type : TypeInfo} {object : Object} (howns : m.Owns p call object)
    (hi : i < kStateSlots) (hslot : m.slot site i = ⟨none, some object⟩)
    (hsearched : (m.impls site).Searched p (p.typeOf type) i) :
    let m' := m.setSlot site i ⟨some type, some object⟩
    StateInvariant p m' ∧ StateGuarantee p call m m' ∧
      m'.Published p site (p.typeOf type) object := by
  intro m'
  obtain ⟨hsite, hpublished⟩ := (hm.impls site).announce hi hslot hsearched
  have htaken : ∀ j slotType, (m.slot site j).type = some slotType →
      Function.update (m.impls site).slots i ⟨some type, some object⟩ j = m.slot site j := by
    intro j slotType htype
    refine Function.update_of_ne ?_ ..
    rintro rfl
    rw [hslot] at htype
    cases htype
  obtain ⟨hm', hguarantee⟩ :=
    hm.update hlock hsite htaken (fun t o h => (hpublished t o).mpr (.inl h))
    fun t o h => ((hpublished t o).mp h).imp_right (by rintro ⟨-, rfl⟩; exact howns)
  refine ⟨hm', hguarantee, ?_⟩
  rw [Memory.Published, show m'.impls site = _ from Function.update_self ..]
  exact (hpublished _ _).mpr (.inr ⟨rfl, rfl⟩)

/-- The holder of the lock publishes its state in the map. -/
theorem StateInvariant.setOverflow [DecidableEq T] (hm : StateInvariant p m)
    (hlock : m.mutex = some call) {site : ℕ} {type : T} {object : Object}
    (howns : m.Owns p call object) (hsearched : (m.impls site).Searched p type kStateSlots)
    (hnone : (m.impls site).overflow type = none) :
    let m' := m.setOverflow site type object
    StateInvariant p m' ∧ StateGuarantee p call m m' ∧ m'.Published p site type object := by
  intro m'
  obtain ⟨hsite, hpublished⟩ := (hm.impls site).setOverflow hsearched hnone
  obtain ⟨hm', hguarantee⟩ := hm.update hlock hsite (fun j slotType htype => rfl)
    (fun t o h => (hpublished t o).mpr (.inl h))
    fun t o h => ((hpublished t o).mp h).imp_right (by rintro ⟨-, rfl⟩; exact howns)
  refine ⟨hm', hguarantee, ?_⟩
  rw [Memory.Published, show m'.impls site = _ from Function.update_self ..]
  exact (hpublished _ _).mpr (.inr ⟨rfl, rfl⟩)

/-- A call constructs a state. -/
theorem StateInvariant.construct (hm : StateInvariant p m) (call : Call) :
    let m' := { m with constructions := m.constructions ++ [call] }
    StateInvariant p m' ∧ m'.Owns p call m.constructions.length ∧ StateGuarantee p call m m' := by
  intro m'
  have hlength : m'.constructions.length = m.constructions.length + 1 := List.length_append
  refine ⟨⟨hm.impls, fun site type object h => ?_, fun object h => ?_, hm.nodup⟩, ⟨?_, ?_, ?_⟩,
    .of_impls rfl (List.prefix_append _ _) rfl⟩
  · obtain ⟨hlt, hkept⟩ := hm.published site type object h
    exact ⟨hlength ▸ Nat.lt_succ_of_lt hlt, hkept⟩
  · exact hlength ▸ Nat.lt_succ_of_lt (hm.destroyed object h)
  · exact List.getElem?_concat_length
  · exact fun hmem => Nat.lt_irrefl _ (hm.destroyed _ hmem)
  · exact fun site type hpublished => Nat.lt_irrefl _ (hm.published site type _ hpublished).1

/-- A call destroys the state that it has constructed. -/
theorem StateInvariant.destroy (hm : StateInvariant p m) {object : Object}
    (howns : m.Owns p call object) :
    let m' := { m with destroyed := m.destroyed ++ [object] }
    StateInvariant p m' ∧ m'.destroyed.count object = 1 ∧ StateGuarantee p call m m' := by
  intro m'
  refine ⟨⟨hm.impls, fun site type other h => ?_, fun other h => ?_, ?_⟩, ?_,
    ⟨fun _ => rfl, fun _ _ _ _ => rfl, fun _ _ _ => id, fun _ _ _ => .inl, List.prefix_refl _,
      fun other call' hne hother => ?_⟩⟩
  · obtain ⟨hlt, hkept⟩ := hm.published site type other h
    refine ⟨hlt, fun hmem => ?_⟩
    rcases List.mem_append.mp hmem with hmem | hmem
    · exact hkept hmem
    · rw [List.mem_singleton.mp hmem] at h
      exact howns.unpublished site type h
  · rcases List.mem_append.mp h with hmem | hmem
    · exact hm.destroyed other hmem
    · rw [List.mem_singleton.mp hmem]
      exact (List.getElem?_eq_some_iff.mp howns.constructed).1
  · change (m.destroyed ++ [object]).Nodup
    rw [← List.concat_eq_append, List.nodup_concat]
    exact ⟨howns.kept, hm.nodup⟩
  · rw [List.count_append, List.count_eq_zero_of_not_mem howns.kept, List.count_singleton_self]
  · have hdistinct : object ≠ other := by
      rintro rfl
      exact hne (Option.some.inj (hother.symm.trans howns.constructed))
    rw [List.count_append, List.count_singleton, if_neg (by simpa using hdistinct), Nat.add_zero]

/-- A step of `State` changes the lock and the states only. -/
structure StateFrame (m m' : Memory TypeInfo T Call) : Prop where
  sites : m'.sites = m.sites
  aliases : m'.aliases = m.aliases

theorem StateFrame.refl (m : Memory TypeInfo T Call) : StateFrame m m := ⟨rfl, rfl⟩

theorem StateGuarantee.refl (m : Memory TypeInfo T Call) : StateGuarantee p call m m :=
  .of_impls rfl (List.prefix_refl _) rfl

variable [DecidableEq T]

/-- A step of `State` keeps the invariant and what is known of its call. -/
theorem stateNext_spec (hm : StateInvariant p m) {phase phase' : StatePhase TypeInfo}
    (hknown : phase.Known p call m) (hnext : stateNext p call m phase = some (m', phase')) :
    StateInvariant p m' ∧ phase'.Known p call m' ∧ LookupGuarantee call m m' ∧
      StateGuarantee p call m m' ∧ StateFrame m m' := by
  cases phase with
  | scanning site type i =>
    rw [stateNext] at hnext
    split_ifs at hnext
    · cases hnext
      exact ⟨hm, trivial, .refl _ _, .refl _, .refl _⟩
    split at hnext
    · cases hnext
      exact ⟨hm, trivial, .refl _ _, .refl _, .refl _⟩
    · rename_i slotType htype
      split_ifs at hnext with hsame
      · cases hnext
        obtain ⟨-, object, hslot⟩ := (hm.impls site).slot htype
        exact ⟨hm, ⟨slotType, object, hslot, hsame⟩, .refl _ _, .refl _, .refl _⟩
      · cases hnext
        exact ⟨hm, trivial, .refl _ _, .refl _, .refl _⟩
  | loading site type i =>
    rw [stateNext] at hnext
    cases hnext
    obtain ⟨slotType, object, hslot, hsame⟩ := hknown
    refine ⟨hm, ⟨object, by rw [hslot], .inl ⟨i, slotType, hslot, hsame⟩⟩, .refl _ _, .refl _,
      .refl _⟩
  | constructing site type =>
    rw [stateNext] at hnext
    cases hnext
    obtain ⟨hm, howns, hguarantee⟩ := hm.construct call
    exact ⟨hm, howns, ⟨List.prefix_refl _, fun _ _ => id⟩, hguarantee, rfl, rfl⟩
  | locking site type constructed =>
    rw [stateNext] at hnext
    split_ifs at hnext with hmutex
    cases hnext
    refine ⟨⟨hm.impls, hm.published, hm.destroyed, hm.nodup⟩, ⟨rfl, ?_, ?_, Nat.zero_le _⟩,
      ⟨List.prefix_refl _, fun other _ hother => ?_⟩,
      .of_impls rfl (List.prefix_refl _) rfl, rfl, rfl⟩
    · exact ⟨hknown.constructed, hknown.kept, hknown.unpublished⟩
    · exact fun j hj => absurd hj (Nat.not_lt_zero j)
    · rw [hother] at hmutex
      exact absurd rfl hmutex
  | publishing site type constructed i =>
    obtain ⟨hlock, howns, hsearched, hi⟩ := hknown
    rw [stateNext] at hnext
    split_ifs at hnext with hlast
    · cases hnext
      exact ⟨hm, ⟨hlock, howns, hlast ▸ hsearched⟩, .refl _ _, .refl _, .refl _⟩
    have hi := Nat.lt_of_le_of_ne hi hlast
    split at hnext
    · rename_i hfree
      cases hnext
      exact ⟨hm, ⟨hlock, howns, hsearched, hi, hfree⟩, .refl _ _, .refl _, .refl _⟩
    · rename_i slotType htype
      split_ifs at hnext with hsame
      · cases hnext
        obtain ⟨-, object, hslot⟩ := (hm.impls site).slot htype
        have hpublished : m.Published p site (p.typeOf type) object :=
          .inl ⟨i, slotType, hslot, hsame⟩
        exact ⟨hm, ⟨hlock, object, congrArg Slot.state hslot, hpublished, howns.constructed,
          fun _ => howns⟩, .refl _ _, .refl _, .refl _⟩
      · cases hnext
        refine ⟨hm, ⟨hlock, howns, fun j hj => ?_, hi⟩, .refl _ _, .refl _, .refl _⟩
        rcases Nat.lt_succ_iff_lt_or_eq.mp hj with hj | rfl
        · exact hsearched j hj
        · exact ⟨slotType, htype, hsame⟩
  | filling site type constructed i =>
    obtain ⟨hlock, howns, hsearched, hi, hfree⟩ := hknown
    rw [stateNext, hfree] at hnext
    cases hnext
    obtain ⟨hm', hguarantee, hpublished, hslot, hsearched'⟩ :=
      hm.fill hlock hfree (some constructed) hsearched
    exact ⟨hm', ⟨hlock, ⟨howns.constructed, howns.kept, fun site' t h =>
      howns.unpublished site' t ((hpublished site' t _).mp h)⟩, hsearched', hi, hslot⟩,
      ⟨List.prefix_refl _, fun _ _ => id⟩, hguarantee, rfl, rfl⟩
  | announcing site type constructed i =>
    obtain ⟨hlock, howns, hsearched, hi, hslot⟩ := hknown
    rw [stateNext, hslot] at hnext
    cases hnext
    obtain ⟨hm', hguarantee, hpublished⟩ := hm.announce hlock howns hi hslot hsearched
    exact ⟨hm', ⟨hlock, constructed, rfl, hpublished, howns.constructed, fun hne => absurd rfl hne⟩,
      ⟨List.prefix_refl _, fun _ _ => id⟩, hguarantee, rfl, rfl⟩
  | overflowing site type constructed =>
    obtain ⟨hlock, howns, hsearched⟩ := hknown
    rw [stateNext] at hnext
    split at hnext
    · rename_i hnone
      cases hnext
      obtain ⟨hm', hguarantee, hpublished⟩ := hm.setOverflow hlock howns hsearched hnone
      exact ⟨hm', ⟨hlock, constructed, rfl, hpublished, howns.constructed, fun hne =>
        absurd rfl hne⟩,
        ⟨List.prefix_refl _, fun _ _ => id⟩, hguarantee, rfl, rfl⟩
    · rename_i object hobject
      cases hnext
      exact ⟨hm, ⟨hlock, object, rfl, .inr hobject, howns.constructed, fun _ => howns⟩, .refl _ _,
        .refl _, .refl _⟩
  | unlocking site type constructed state =>
    rw [stateNext] at hnext
    cases hnext
    obtain ⟨object, hstate, hpublished, hconstructed, howns⟩ := hknown.2
    refine ⟨⟨hm.impls, hm.published, hm.destroyed, hm.nodup⟩,
      ⟨object, hstate, hpublished, hconstructed, fun hne => ?_⟩,
      ⟨List.prefix_refl _, fun other hne hother => ?_⟩,
      .of_impls rfl (List.prefix_refl _) rfl, rfl, rfl⟩
    · exact ⟨(howns hne).constructed, (howns hne).kept, (howns hne).unpublished⟩
    · exact absurd (Option.some.inj (hother.symm.trans hknown.1)) hne
  | deciding site type constructed state =>
    obtain ⟨object, rfl, hpublished, hconstructed, howns⟩ := hknown
    rw [stateNext] at hnext
    split_ifs at hnext with hkept
    · cases hnext
      obtain rfl := Option.some.inj hkept
      refine ⟨hm, ⟨object, rfl, hpublished, hconstructed, ?_⟩, .refl _ _, .refl _, .refl _⟩
      rw [if_pos rfl, List.count_eq_zero]
      exact (hm.published _ _ _ hpublished).2
    · cases hnext
      have hne : object ≠ constructed := fun heq => hkept (congrArg some heq)
      obtain ⟨hm, hcount, hguarantee⟩ := hm.destroy (howns hne)
      exact ⟨hm, ⟨object, rfl, hpublished, hconstructed, by rw [if_neg hne.symm]; exact hcount⟩,
        ⟨List.prefix_refl _, fun _ _ => id⟩, hguarantee, rfl, rfl⟩
  | returned site type constructed state => cases hnext

end Sites

end NgLog
