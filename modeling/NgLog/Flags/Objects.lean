import NgLog.Flags.Scopes

/-!
# Flags of several types and their registration

A program has flag objects of several types, and registers and unregisters them. The registry keeps
the registered ones by name, and a registration number for each, which is new whenever a flag is
registered. A flag object may be destroyed when it is not registered. Another object, of any type,
may then take its address.

A flag that has been saved is told by its address and its registration number: as long as both are
found in the registry, it is the same object.

`RegisterFlag` refuses some names and aborts the process; the model lets it register them.

## Main definitions

* `Object`, `World` — a flag object, and the flags of a program with the registry
* `Action`, `step` — what can happen to them
* `World.Has` — what a flag answers when it is read
* `World.Holds` — the values of a flag in terms of the specification of its storage

## Main results

* `wellFormed_step` — the storages of all flags are as the specification says, and the registry has
  the registered flags
* `stays_run` — a flag that keeps its registration stays an object of its type
-/

namespace NgLog

namespace FlagObjects

open FlagValues (Operation Refines Start Storage Values)

open Transition (run)

/-- The address of an object. -/
abbrev Address : Type := ℕ

variable {ι : Type} {Value Store : ι → Type}

/-! ### The flags of a program -/

/-- A flag object, of one of several types. -/
structure Object (Store : ι → Type) where
  name : List Byte
  type : ι
  store : Store type

/-- The flag objects, the flags of the registry in the order of their names, the registrations in
its entries, the next registration, and the last number of a scoped flag. -/
structure World (Store : ι → Type) where
  objects : Address → Option (Object Store)
  flags : List (List Byte × Address)
  entries : Address → Option ℕ
  nextRegistration : ℕ
  sequence : ℕ

/-- A program before its first flag. -/
def World.empty : World Store := ⟨fun _ => none, [], fun _ => none, 1, 0⟩

namespace World

/-- The registration of a flag, or zero. -/
def registration (w : World Store) (a : Address) : ℕ := (w.entries a).getD 0

/-- The storage of a flag of a type that is known at compile time. -/
def store [DecidableEq ι] (w : World Store) (a : Address) (type : ι) : Option (Store type) :=
  (w.objects a).bind fun object =>
    if h : object.type = type then some (h ▸ object.store) else none

/-- A flag has changed its storage. -/
def setStore (w : World Store) (a : Address) (type : ι) (s : Store type) : World Store :=
  let object := (w.objects a).map fun object => ⟨object.name, type, s⟩
  { w with objects := Function.update w.objects a object }

end World

/-- Inserts a flag in front of the first one with a later name. -/
def insertFlag (name : List Byte) (a : Address) :
    List (List Byte × Address) → List (List Byte × Address)
  | [] => [(name, a)]
  | flag :: flags =>
    if name < flag.1 then (name, a) :: flag :: flags else flag :: insertFlag name a flags

/-- What can happen. -/
inductive Action (Value : ι → Type)
  /-- A flag is constructed. -/
  | create (a : Address) (name : List Byte) (type : ι) (start : Start (Value type))
  /-- A flag is destroyed. -/
  | destroy (a : Address)
  | registerFlag (a : Address)
  | unregisterFlag (a : Address)
  /-- An operation on the values of a flag, by one of the functions that have access to them. -/
  | operate (a : Address) (type : ι) (operation : Operation (Value type))

section Steps

variable [DecidableEq ι] [∀ i, Storage (Store i) (Value i)]
  (start : ∀ i, Start (Value i) → Store i)

/-- One step. The destructor of a flag has unregistered it before. -/
def step (w : World Store) : Action Value → Option (World Store)
  | .create a name type s =>
    if (w.objects a).isSome then none
    else some { w with objects := Function.update w.objects a (some ⟨name, type, start type s⟩) }
  | .destroy a =>
    if (w.entries a).isSome then none
    else some { w with objects := Function.update w.objects a none }
  | .registerFlag a =>
    match w.objects a with
    | none => none
    | some object =>
      if (w.entries a).isSome ∨ (w.flags.any fun flag => flag.1 = object.name) then none
      else some { w with
        flags := insertFlag object.name a w.flags
        entries := Function.update w.entries a (some w.nextRegistration)
        nextRegistration := w.nextRegistration + 1 }
  | .unregisterFlag a =>
    match w.objects a with
    | none => none
    | some object =>
      if (w.entries a).isSome then
        some { w with
          flags := w.flags.filter fun flag => flag ≠ (object.name, a)
          entries := Function.update w.entries a none }
      else some w
  | .operate a type operation => do
    let s ← w.store a type
    let (s, _) ← Storage.step s operation
    return w.setStore a type s

/-- A flag of the type that returns the value when it is read, and has been set explicitly or not.
-/
def World.Has (w : World Store) (a : Address) (type : ι) (value : Value type)
    (explicitlySet : Bool) : Prop :=
  ∃ s s₁ s₂, w.store a type = some s ∧ Storage.get s = some (s₁, value) ∧
    Storage.explicitlySet s = some (s₂, explicitlySet)

end Steps

/-! ### Storages of objects -/

section Stores

variable [DecidableEq ι] {w : World Store} {a b : Address} {type : ι} {s s' : Store type}

theorem World.store_eq_some :
    w.store a type = some s ↔ ∃ name, w.objects a = some ⟨name, type, s⟩ := by
  rw [World.store, Option.bind_eq_some_iff]
  constructor
  · rintro ⟨⟨name, type', s'⟩, hobject, htype⟩
    split at htype
    · rename_i hsame
      subst hsame
      cases htype
      exact ⟨name, hobject⟩
    · cases htype
  · rintro ⟨name, hobject⟩
    exact ⟨_, hobject, dif_pos rfl⟩

theorem World.store_setStore_self (h : w.store a type = some s) :
    (w.setStore a type s').store a type = some s' := by
  obtain ⟨name, hobject⟩ := World.store_eq_some.mp h
  refine World.store_eq_some.mpr ⟨name, ?_⟩
  rw [World.setStore]
  dsimp only
  rw [Function.update_self, hobject]
  rfl

omit [DecidableEq ι] in
theorem World.objects_setStore_of_ne (hne : b ≠ a) :
    (w.setStore a type s).objects b = w.objects b :=
  Function.update_of_ne hne _ _

theorem World.store_congr {w' : World Store} (h : w'.objects a = w.objects a) (type : ι) :
    w'.store a type = w.store a type := by
  rw [World.store, World.store, h]

theorem World.store_setStore_of_ne (hne : b ≠ a) (type' : ι) :
    (w.setStore a type s).store b type' = w.store b type' := by
  rw [World.store, World.store, World.objects_setStore_of_ne hne]

/-- An object has one type and one storage. -/
theorem World.store_unique {type' : ι} {s' : Store type'} (h : w.store a type = some s)
    (h' : w.store a type' = some s') : type = type' ∧ s ≍ s' := by
  obtain ⟨name, hobject⟩ := World.store_eq_some.mp h
  obtain ⟨name', hobject'⟩ := World.store_eq_some.mp h'
  cases hobject.symm.trans hobject'
  exact ⟨rfl, HEq.rfl⟩

end Stores

/-! ### The registry has the registered flags -/

variable (R : ∀ i, Store i → Values (Value i) → Prop)

/-- The flag is of the type, and its values are those of the specification. -/
def World.Holds [DecidableEq ι] (w : World Store) (a : Address) (type : ι)
    (t : Values (Value type)) : Prop :=
  ∃ s, w.store a type = some s ∧ R type s t

/-- The storages are as the specification says, and the registry has the registered flags, each once
and by its name. -/
structure WellFormed (w : World Store) : Prop where
  represented : ∀ a object, w.objects a = some object → ∃ t, R object.type object.store t
  registered_iff : ∀ a, (w.entries a).isSome = true ↔ a ∈ w.flags.map Prod.snd
  nodup : (w.flags.map Prod.snd).Nodup
  named : ∀ flag ∈ w.flags, ∃ object, w.objects flag.2 = some object ∧ object.name = flag.1
  positive : 0 < w.nextRegistration
  bounds : ∀ a r, w.entries a = some r → 0 < r ∧ r < w.nextRegistration

theorem wellFormed_empty : WellFormed R (World.empty : World Store) where
  represented _ _ h := by cases h
  registered_iff _ := iff_of_false Bool.false_ne_true List.not_mem_nil
  nodup := List.nodup_nil
  named _ h := absurd h List.not_mem_nil
  positive := Nat.one_pos
  bounds _ _ h := by cases h

theorem insertFlag_perm (name : List Byte) (a : Address) (flags : List (List Byte × Address)) :
    (insertFlag name a flags).Perm ((name, a) :: flags) := by
  induction flags with
  | nil => exact .refl _
  | cons flag flags ih =>
    rw [insertFlag]
    split
    · exact .refl _
    · exact (ih.cons flag).trans (.swap ..)

section Registry

variable {R} {w w' : World Store} {a : Address}

theorem WellFormed.not_mem (h : WellFormed R w) (ha : (w.entries a).isSome = false) :
    ∀ flag ∈ w.flags, flag.2 ≠ a := by
  rintro flag hflag rfl
  rw [(h.registered_iff _).mpr (List.mem_map_of_mem hflag)] at ha
  cases ha

/-- Where no object is, none is registered. -/
theorem WellFormed.not_registered (h : WellFormed R w) (ha : w.objects a = none) :
    (w.entries a).isSome = false := by
  rw [← Bool.not_eq_true, h.registered_iff, List.mem_map]
  rintro ⟨flag, hflag, rfl⟩
  obtain ⟨object, hobject, -⟩ := h.named flag hflag
  cases ha.symm.trans hobject

/-- An object that is not registered may be replaced or destroyed. -/
theorem WellFormed.update (h : WellFormed R w) (ha : (w.entries a).isSome = false)
    {object : Option (Object Store)} (hobject : ∀ o ∈ object, ∃ t, R o.type o.store t) :
    WellFormed R { w with objects := Function.update w.objects a object } where
  represented b o ho := by
    by_cases hb : b = a
    · subst hb
      have hself : Function.update w.objects b object b = object := Function.update_self ..
      exact hobject o (hself.symm.trans ho)
    · exact h.represented b o ((Function.update_of_ne hb ..).symm.trans ho)
  registered_iff := h.registered_iff
  nodup := h.nodup
  named flag hflag := by
    obtain ⟨o, ho, hname⟩ := h.named flag hflag
    exact ⟨o, (Function.update_of_ne (h.not_mem ha flag hflag) ..).trans ho, hname⟩
  positive := h.positive
  bounds := h.bounds

/-- A flag may change its storage. -/
theorem WellFormed.setStore [DecidableEq ι] (h : WellFormed R w) {type : ι} {s s' : Store type}
    (hs : w.store a type = some s) {t : Values (Value type)} (ht : R type s' t) :
    WellFormed R (w.setStore a type s') where
  represented b o ho := by
    by_cases hb : b = a
    · subst hb
      have hself : (w.setStore b type s').store b type = some s' := World.store_setStore_self hs
      obtain ⟨name, hname⟩ := World.store_eq_some.mp hself
      cases ho.symm.trans hname
      exact ⟨t, ht⟩
    · rw [World.objects_setStore_of_ne hb] at ho
      exact h.represented b o ho
  registered_iff := h.registered_iff
  nodup := h.nodup
  named flag hflag := by
    obtain ⟨object, hobject, hname⟩ := h.named flag hflag
    by_cases hb : flag.2 = a
    · refine ⟨⟨object.name, type, s'⟩, ?_, hname⟩
      rw [hb] at hobject ⊢
      rw [World.setStore]
      dsimp only
      rw [Function.update_self, hobject]
      rfl
    · exact ⟨object, by rw [World.objects_setStore_of_ne hb]; exact hobject, hname⟩
  positive := h.positive
  bounds := h.bounds

theorem WellFormed.registerFlag (h : WellFormed R w) {object : Object Store}
    (hobject : w.objects a = some object) (ha : (w.entries a).isSome = false) :
    WellFormed R { w with
      flags := insertFlag object.name a w.flags
      entries := Function.update w.entries a (some w.nextRegistration)
      nextRegistration := w.nextRegistration + 1 } where
  represented := h.represented
  registered_iff b := by
    dsimp only
    rw [((insertFlag_perm object.name a w.flags).map Prod.snd).mem_iff, List.map_cons,
      List.mem_cons]
    by_cases hb : b = a
    · subst hb
      rw [Function.update_self]
      exact iff_of_true rfl (.inl rfl)
    · rw [Function.update_of_ne hb, h.registered_iff b, or_iff_right hb]
  nodup := by
    dsimp only
    rw [((insertFlag_perm object.name a w.flags).map Prod.snd).nodup_iff, List.map_cons,
      List.nodup_cons, ← h.registered_iff a, ha]
    exact ⟨Bool.false_ne_true, h.nodup⟩
  named flag hflag := by
    rcases List.mem_cons.mp ((insertFlag_perm object.name a w.flags).mem_iff.mp hflag) with
      rfl | hflag
    · exact ⟨object, hobject, rfl⟩
    · exact h.named flag hflag
  positive := Nat.succ_pos _
  bounds b r hr := by
    dsimp only at hr ⊢
    by_cases hb : b = a
    · subst hb
      rw [Function.update_self] at hr
      cases hr
      exact ⟨h.positive, Nat.lt_succ_self _⟩
    · rw [Function.update_of_ne hb] at hr
      exact ⟨(h.bounds b r hr).1, Nat.lt_succ_of_lt (h.bounds b r hr).2⟩

theorem WellFormed.unregisterFlag (h : WellFormed R w) {object : Object Store}
    (hobject : w.objects a = some object) :
    WellFormed R { w with
      flags := w.flags.filter fun flag => flag ≠ (object.name, a)
      entries := Function.update w.entries a none } where
  represented := h.represented
  registered_iff b := by
    -- the flag at the address is found by the name of the object
    have hname : ∀ flag ∈ w.flags, flag.2 = a → flag = (object.name, a) := by
      rintro flag hflag rfl
      obtain ⟨object', hobject', hname⟩ := h.named flag hflag
      cases hobject.symm.trans hobject'
      exact Prod.ext hname.symm rfl
    dsimp only
    rw [List.mem_map]
    by_cases hb : b = a
    · subst hb
      rw [Function.update_self]
      refine iff_of_false Bool.false_ne_true ?_
      rintro ⟨flag, hflag, hb⟩
      obtain ⟨hflag, hne⟩ := List.mem_filter.mp hflag
      exact of_decide_eq_true hne (hname flag hflag hb)
    · rw [Function.update_of_ne hb, h.registered_iff b, List.mem_map]
      constructor
      · rintro ⟨flag, hflag, rfl⟩
        exact ⟨flag, List.mem_filter.mpr ⟨hflag, decide_eq_true fun heq => hb (by rw [heq])⟩, rfl⟩
      · rintro ⟨flag, hflag, hsnd⟩
        exact ⟨flag, (List.mem_filter.mp hflag).1, hsnd⟩
  nodup := h.nodup.sublist (List.filter_sublist.map Prod.snd)
  named flag hflag := h.named flag ((List.mem_filter.mp hflag).1)
  positive := h.positive
  bounds b r hr := by
    dsimp only at hr ⊢
    by_cases hb : b = a
    · subst hb
      rw [Function.update_self] at hr
      cases hr
    · rw [Function.update_of_ne hb] at hr
      exact h.bounds b r hr

end Registry

/-! ### Steps -/

section Runs

variable [DecidableEq ι] [∀ i, Storage (Store i) (Value i)]
  {R : ∀ i, Store i → Values (Value i) → Prop} (hR : ∀ i, Refines (Store i) (R i))
  {start : ∀ i, Start (Value i) → Store i}
  (hstart : ∀ i s, R i (start i s) (.init s.value)) {w w' : World Store} {a : Address}

include hR

/-- A flag answers what the specification says. -/
theorem World.Holds.has {type : ι} {t : Values (Value type)} (h : w.Holds R a type t) :
    w.Has a type t.value t.explicitlySet := by
  obtain ⟨s, hs, ht⟩ := h
  obtain ⟨s₁, hget, -⟩ := (hR type).get ht
  obtain ⟨s₂, hexplicit, -⟩ := (hR type).explicitlySet ht
  exact ⟨s, s₁, s₂, hs, hget, hexplicit⟩

theorem World.Holds.has_iff {type : ι} {t : Values (Value type)} (h : w.Holds R a type t)
    (value : Value type) (explicitlySet : Bool) :
    w.Has a type value explicitlySet ↔ value = t.value ∧ explicitlySet = t.explicitlySet := by
  obtain ⟨s, s₁, s₂, hs, hget, hexplicit⟩ := h.has hR
  constructor
  · rintro ⟨s', s₁', s₂', hs', hget', hexplicit'⟩
    cases hs.symm.trans hs'
    cases hget.symm.trans hget'
    cases hexplicit.symm.trans hexplicit'
    exact ⟨rfl, rfl⟩
  · rintro ⟨rfl, rfl⟩
    exact ⟨s, s₁, s₂, hs, hget, hexplicit⟩

omit hR in
/-- An object has one type. -/
theorem World.Holds.type_eq {type type' : ι} {t : Values (Value type)} (h : w.Holds R a type t)
    {value : Value type'} {explicitlySet : Bool} (h' : w.Has a type' value explicitlySet) :
    type' = type := by
  obtain ⟨s, hs, -⟩ := h
  obtain ⟨s', -, -, hs', -⟩ := h'
  exact (World.store_unique hs' hs).1

omit hR [∀ i, Storage (Store i) (Value i)] in
/-- An object has the values of a specification. -/
theorem WellFormed.exists_holds (h : WellFormed R w) {type : ι} {s : Store type}
    (hs : w.store a type = some s) : ∃ t, w.Holds R a type t := by
  obtain ⟨name, hobject⟩ := World.store_eq_some.mp hs
  obtain ⟨t, ht⟩ := h.represented a _ hobject
  exact ⟨t, s, hs, ht⟩

omit hR [∀ i, Storage (Store i) (Value i)] in
/-- A registered flag is an object. -/
theorem WellFormed.exists_values (h : WellFormed R w) (ha : (w.entries a).isSome = true) :
    ∃ type t, w.Holds R a type t := by
  obtain ⟨flag, hflag, rfl⟩ := List.mem_map.mp ((h.registered_iff a).mp ha)
  obtain ⟨⟨name, type, s⟩, hobject, -⟩ := h.named flag hflag
  exact ⟨type, h.exists_holds (World.store_eq_some.mpr ⟨name, hobject⟩)⟩

include hstart in
/-- Every step leaves the storages and the registry in order. -/
theorem wellFormed_step (hw : WellFormed R w) {action : Action Value}
    (hstep : step start w action = some w') : WellFormed R w' := by
  cases action with
  | create a name type s =>
    rw [step] at hstep
    split_ifs at hstep with hfree
    obtain rfl := Option.some.inj hstep
    refine hw.update (hw.not_registered ?_) fun o ho => ?_
    · rwa [← Option.not_isSome_iff_eq_none]
    · obtain rfl := Option.some.inj ho
      exact ⟨_, hstart type s⟩
  | destroy a =>
    rw [step] at hstep
    split_ifs at hstep with hregistered
    obtain rfl := Option.some.inj hstep
    exact hw.update (Bool.not_eq_true _ ▸ hregistered) fun _ ho => by cases ho
  | registerFlag a =>
    rw [step] at hstep
    split at hstep
    · cases hstep
    · rename_i object hobject
      split_ifs at hstep with hregistered
      obtain rfl := Option.some.inj hstep
      exact hw.registerFlag hobject (Bool.not_eq_true _ ▸ (not_or.mp hregistered).1)
  | unregisterFlag a =>
    rw [step] at hstep
    split at hstep
    · cases hstep
    · rename_i object hobject
      split_ifs at hstep
      · obtain rfl := Option.some.inj hstep
        exact hw.unregisterFlag hobject
      · obtain rfl := Option.some.inj hstep
        exact hw
  | operate a type operation =>
    obtain ⟨s, hs, hoperation⟩ := Option.bind_eq_some_iff.mp hstep
    obtain ⟨t, s', hs', ht⟩ := hw.exists_holds hs
    cases hs.symm.trans hs'
    obtain ⟨s', hresult, ht'⟩ := (hR type).simulates s t operation ht
    rw [hresult] at hoperation
    obtain rfl := Option.some.inj hoperation
    exact hw.setStore hs ht'

omit hR in
/-- While a flag keeps its registration, it stays an object of its type: it is not destroyed, and a
new registration has a new number. -/
theorem stays_step {type : ι} {r : ℕ} (hw : WellFormed R w) {action : Action Value}
    (hstep : step start w action = some w') (hr : r < w.nextRegistration)
    (hstays : w.entries a = some r → ∃ s, w.store a type = some s) :
    r < w'.nextRegistration ∧ (w'.entries a = some r → ∃ s, w'.store a type = some s) := by
  cases action with
  | create b name type' s =>
    rw [step] at hstep
    split_ifs at hstep with hfree
    obtain rfl := Option.some.inj hstep
    refine ⟨hr, fun hentry => ?_⟩
    have hne : a ≠ b := by
      rintro rfl
      have hregistered := hw.not_registered (Option.not_isSome_iff_eq_none.mp hfree)
      rw [hentry] at hregistered
      cases hregistered
    obtain ⟨s₀, hs₀⟩ := hstays hentry
    exact ⟨s₀, by rw [← hs₀]; exact World.store_congr (Function.update_of_ne hne ..) type⟩
  | destroy b =>
    rw [step] at hstep
    split_ifs at hstep with hregistered
    obtain rfl := Option.some.inj hstep
    refine ⟨hr, fun hentry => ?_⟩
    have hne : a ≠ b := by
      rintro rfl
      exact hregistered (Option.isSome_of_eq_some hentry)
    obtain ⟨s₀, hs₀⟩ := hstays hentry
    exact ⟨s₀, by rw [← hs₀]; exact World.store_congr (Function.update_of_ne hne ..) type⟩
  | registerFlag b =>
    rw [step] at hstep
    split at hstep
    · cases hstep
    · rename_i object hobject
      split_ifs at hstep with hregistered
      obtain rfl := Option.some.inj hstep
      refine ⟨Nat.lt_succ_of_lt hr, fun hentry => ?_⟩
      dsimp only at hentry
      by_cases hb : a = b
      · subst hb
        rw [Function.update_self] at hentry
        cases hentry
        exact absurd hr (Nat.lt_irrefl _)
      · rw [Function.update_of_ne hb] at hentry
        exact hstays hentry
  | unregisterFlag b =>
    rw [step] at hstep
    split at hstep
    · cases hstep
    · split_ifs at hstep
      · obtain rfl := Option.some.inj hstep
        refine ⟨hr, fun hentry => ?_⟩
        dsimp only at hentry
        by_cases hb : a = b
        · subst hb
          rw [Function.update_self] at hentry
          cases hentry
        · rw [Function.update_of_ne hb] at hentry
          exact hstays hentry
      · obtain rfl := Option.some.inj hstep
        exact ⟨hr, hstays⟩
  | operate b type' operation =>
    obtain ⟨s, hs, hoperation⟩ := Option.bind_eq_some_iff.mp hstep
    obtain ⟨⟨s', reply⟩, hresult, hw'⟩ := Option.bind_eq_some_iff.mp hoperation
    obtain rfl := Option.some.inj hw'
    refine ⟨hr, fun hentry => ?_⟩
    obtain ⟨s₀, hs₀⟩ := hstays hentry
    by_cases hb : a = b
    · subst hb
      obtain ⟨rfl, -⟩ := World.store_unique hs hs₀
      exact ⟨s', World.store_setStore_self hs⟩
    · exact ⟨s₀, by rw [World.store_setStore_of_ne hb, hs₀]⟩

include hstart in
/-- Every run leaves the storages and the registry in order. -/
theorem wellFormed_run (hw : WellFormed R w) {actions : List (Action Value)}
    (hrun : run (step start) w actions = some w') : WellFormed R w' :=
  Transition.run_invariant_all (fun _ _ _ hw hstep => wellFormed_step hR hstart hw hstep) hw hrun

include hstart in
/-- A flag that has the same registration after a run is still an object of the same type. -/
theorem stays_run {type : ι} {r : ℕ} (hw : WellFormed R w) {actions : List (Action Value)}
    (hrun : run (step start) w actions = some w') {s : Store type} (hs : w.store a type = some s)
    (hr : w.entries a = some r) (hr' : w'.entries a = some r) :
    ∃ s', w'.store a type = some s' := by
  have hstays : WellFormed R w' ∧ r < w'.nextRegistration ∧
      (w'.entries a = some r → ∃ s, w'.store a type = some s) := by
    refine Transition.run_invariant_all (I := fun w => WellFormed R w ∧ r < w.nextRegistration ∧
      (w.entries a = some r → ∃ s, w.store a type = some s)) ?_
      ⟨hw, (hw.bounds a r hr).2, fun _ => ⟨s, hs⟩⟩ hrun
    rintro w action w' ⟨hw, hlt, hstays⟩ hstep
    exact ⟨wellFormed_step hR hstart hw hstep, stays_step hw hstep hlt hstays⟩
  exact hstays.2.2 hr'

end Runs

end FlagObjects

end NgLog
