import Mathlib.Data.List.MinMax
import Mathlib.Order.Bounds.Basic
import NgLog.Support.Transition

/-!
# How the copies of the library find the shared registry

On Linux the copies of the library in a process agree on a `SharedRegistry` through an anchor, a
mapping of an anonymous file with a known name. An instance that finds no anchor among the mappings
of the process creates one and looks again. The lowest address is to win, and an instance whose
anchor has lost unmaps it. Then it publishes the registry that it has allocated, or takes the one
that is already published there.

An instance may have chosen an anchor when another one is still created. This file shows that all
instances agree, and none touches an anchor that has been unmapped, as long as no anchor is created
at an address below one that has been chosen. Once every instance has returned, they agree in no
other case.

## Main definitions

* `Process`, `Phase` — the mappings of the process, and how far each instance is
* `Action`, `step` — one step of `AcquireSharedRegistry`
* `Process.Agrees` — all instances have the same registry
* `KeepsLowest` — no anchor is created below one that has been chosen

## Main results

* `findAnchor_eq_iff` — the scan of the mappings
* `step_cases` — what a step can do
* `wellFormed_step` — the invariant of all runs
* `settled_step` — the invariant of the runs that keep the lowest address
* `acquire_agrees` — which runs agree
-/

namespace NgLog

namespace Anchors

open Transition (run Along)

/-! ### The process -/

/-- An address; null is zero. -/
abbrev Address : Type := ℕ

def kSharedRegistryMagic : ℕ := 0x6e676c6f67666c32

/-- How far `AcquireSharedRegistry` is. -/
inductive Phase (Instance : Type)
  | start
  /-- No anchor was found. -/
  | create
  /-- An anchor has been created. -/
  | created (created : Address)
  /-- Another anchor was found then, and the own one is to be unmapped. -/
  | remove (created anchor : Address)
  | publish (anchor : Address)
  /-- With the anchor that was used, and the instance that has allocated the registry. -/
  | returned (anchor : Address) (registry : Instance)
  /-- The anchor, or the registry in it, was not there any more. -/
  | faulted (anchor : Address)

/-- A process. The registry that an instance allocates has the name of the instance. -/
structure Process (Instance : Type) where
  /-- The start addresses of the mappings that are anchors. -/
  mappings : List Address
  /-- The addresses of all mappings that there have been. -/
  used : List Address
  /-- What the anchor at an address holds. -/
  registry : Address → Option Instance
  /-- The magic number of a registry, if it is allocated. -/
  magic : Instance → Option ℕ
  phase : Instance → Phase Instance

variable {Instance : Type}

/-- No instance has been loaded. -/
def init : Process Instance := ⟨[], [], fun _ => none, fun _ => none, fun _ => .start⟩

/-! ### The functions -/

/-- `FindAnchor`. -/
def findAnchor (mappings : List Address) : Address :=
  mappings.foldl (fun lowest start => if lowest = 0 ∨ start < lowest then start else lowest) 0

/-- The steps of `AcquireSharedRegistry`. -/
inductive Action (Instance : Type)
  | findAnchor (i : Instance)
  | createAnchor (i : Instance) (start : Address)
  | munmap (i : Instance)
  | publish (i : Instance)

section Steps

variable [DecidableEq Instance]

/-- An instance goes on. -/
def Process.goOn (p : Process Instance) (i : Instance) (phase : Phase Instance) :
    Process Instance :=
  { p with phase := Function.update p.phase i phase }

/-- `CreateSharedRegistry`. -/
def Process.createSharedRegistry (p : Process Instance) (i : Instance) : Process Instance :=
  { p with magic := Function.update p.magic i (some kSharedRegistryMagic) }

/-- `DestroySharedRegistry`. -/
def Process.destroySharedRegistry (p : Process Instance) (i : Instance) : Process Instance :=
  { p with magic := Function.update p.magic i none }

/-- `CreateAnchor`, with the address that the kernel chooses. -/
def Process.createAnchor (p : Process Instance) (start : Address) : Process Instance :=
  { p with
    mappings := start :: p.mappings
    used := start :: p.used
    registry := Function.update p.registry start none }

/-- `munmap`. -/
def Process.munmap (p : Process Instance) (start : Address) : Process Instance :=
  { p with mappings := p.mappings.filter fun mapping => mapping ≠ start }

/-- `PublishSharedRegistry`. -/
def Process.publishSharedRegistry (p : Process Instance) (anchor : Address) (i : Instance) :
    Process Instance :=
  if anchor ∉ p.mappings then p.goOn i (.faulted anchor)
  else
    match p.registry anchor with
    | none =>
      { p with registry := Function.update p.registry anchor (some i) }.goOn i (.returned anchor i)
    | some published =>
      match p.magic published with
      | none => p.goOn i (.faulted anchor)
      | some magic =>
        if magic ≠ kSharedRegistryMagic then p.goOn i (.returned anchor i)
        else (p.destroySharedRegistry i).goOn i (.returned anchor published)

/-- A step of an instance, if it is the next one. A new mapping is at an address at which there has
been none. -/
def step (p : Process Instance) : Action Instance → Option (Process Instance)
  | .findAnchor i =>
    let anchor := findAnchor p.mappings
    match p.phase i with
    | .start =>
      some ((p.createSharedRegistry i).goOn i (if anchor = 0 then .create else .publish anchor))
    | .created created =>
      some (p.goOn i (if anchor ≠ created then .remove created anchor else .publish anchor))
    | _ => none
  | .createAnchor i start =>
    match p.phase i with
    | .create =>
      if start ≠ 0 ∧ start ∉ p.used then some ((p.createAnchor start).goOn i (.created start))
      else none
    | _ => none
  | .munmap i =>
    match p.phase i with
    | .remove created anchor =>
      some ((p.munmap created).goOn i (if anchor = 0 then .returned 0 i else .publish anchor))
    | _ => none
  | .publish i =>
    match p.phase i with
    | .publish anchor => some (p.publishSharedRegistry anchor i)
    | _ => none

end Steps

/-! ### Agreement -/

/-- The anchor that an instance has decided to use. -/
def Phase.chosen : Phase Instance → Option Address
  | .start => none
  | .create => none
  | .created _ => none
  | .remove _ anchor => some anchor
  | .publish anchor => some anchor
  | .returned anchor _ => some anchor
  | .faulted anchor => some anchor

/-- The anchor that an instance has created, and may still unmap. -/
def Phase.owned : Phase Instance → Option Address
  | .created anchor => some anchor
  | .remove anchor _ => some anchor
  | _ => none

/-- The instances that have returned have the same registry, and none has touched an anchor that was
unmapped. -/
structure Process.Agrees (p : Process Instance) : Prop where
  same : ∀ i j a b r r', p.phase i = .returned a r → p.phase j = .returned b r' → r = r'
  mapped : ∀ i a, p.phase i ≠ .faulted a

/-- No instance is on its way. -/
def Process.Ended (p : Process Instance) : Prop :=
  ∀ i, p.phase i = .start ∨ (∃ a r, p.phase i = .returned a r) ∨ ∃ a, p.phase i = .faulted a

/-- A new anchor is not below one that has been chosen. -/
def KeepsLowest (p : Process Instance) : Action Instance → Prop
  | .createAnchor _ start => ∀ i a, (p.phase i).chosen = some a → a ≤ start
  | _ => True

/-! ### The lowest address -/

theorem foldl_lowest : ∀ (mappings : List ℕ) {lowest : ℕ}, lowest ≠ 0 →
    0 ∉ mappings →
      mappings.foldl (fun lowest start => if lowest = 0 ∨ start < lowest then start else lowest)
        lowest = mappings.foldl min lowest
  | [], _, _, _ => rfl
  | start :: mappings, lowest, hlowest, hzero => by
    have hstart := List.ne_of_not_mem_cons hzero
    have hmin : (if lowest = 0 ∨ start < lowest then start else lowest) = min lowest start := by
      split <;> omega
    rw [List.foldl_cons, List.foldl_cons, hmin]
    exact foldl_lowest mappings (by omega) (List.not_mem_of_not_mem_cons hzero)

theorem findAnchor_eq (mappings : List Address) (h : 0 ∉ mappings) :
    findAnchor mappings = mappings.min?.getD 0 := by
  cases mappings with
  | nil => rfl
  | cons start mappings =>
    have hstart := List.ne_of_not_mem_cons h
    rw [findAnchor, List.foldl_cons, if_pos (Or.inl rfl),
      foldl_lowest mappings (Ne.symm hstart) (List.not_mem_of_not_mem_cons h)]
    rfl

/-- The scan finds the lowest address. -/
theorem findAnchor_eq_iff {mappings : List Address} (h : 0 ∉ mappings) {a : Address} (ha : a ≠ 0) :
    findAnchor mappings = a ↔ IsLeast {b | b ∈ mappings} a := by
  rw [findAnchor_eq mappings h]
  constructor
  · intro hmin
    obtain ⟨b, hb⟩ | hnone := mappings.min?.eq_none_or_eq_some.symm
    · rw [hb] at hmin
      obtain rfl : b = a := hmin
      obtain ⟨hmem, hle⟩ := List.min?_eq_some_iff.mp hb
      exact ⟨hmem, fun c hc => hle c hc⟩
    · rw [hnone] at hmin
      exact absurd hmin.symm ha
  · rintro ⟨hmem, hle⟩
    rw [List.min?_eq_some_iff.mpr ⟨hmem, fun b hb => hle hb⟩]
    rfl

theorem findAnchor_ne_zero {mappings : List Address} (h : 0 ∉ mappings) {a : Address}
    (ha : a ∈ mappings) : findAnchor mappings ≠ 0 := by
  rw [findAnchor_eq mappings h]
  obtain ⟨b, hb⟩ := Option.isSome_iff_exists.mp (List.isSome_min?_of_mem ha)
  rw [hb]
  rintro rfl
  exact h (List.min?_eq_some_iff.mp hb).1

/-! ### Steps -/

variable {p p' : Process Instance} {a : Action Instance} {i j : Instance}

section Steps

variable [DecidableEq Instance]

/-- What a step can do. -/
inductive Steps (p : Process Instance) : Action Instance → Process Instance → Prop
  | none {i : Instance} (hphase : p.phase i = .start) (hanchor : findAnchor p.mappings = 0) :
    Steps p (.findAnchor i) ((p.createSharedRegistry i).goOn i .create)
  | found {i : Instance} (hphase : p.phase i = .start) (hanchor : findAnchor p.mappings ≠ 0) :
    Steps p (.findAnchor i) ((p.createSharedRegistry i).goOn i (.publish (findAnchor p.mappings)))
  | kept {i : Instance} {created : Address} (hphase : p.phase i = .created created)
      (hanchor : findAnchor p.mappings = created) :
    Steps p (.findAnchor i) (p.goOn i (.publish created))
  | lost {i : Instance} {created : Address} (hphase : p.phase i = .created created)
      (hanchor : findAnchor p.mappings ≠ created) :
    Steps p (.findAnchor i) (p.goOn i (.remove created (findAnchor p.mappings)))
  | created {i : Instance} {start : Address} (hphase : p.phase i = .create) (hstart : start ≠ 0)
      (hnew : start ∉ p.used) :
    Steps p (.createAnchor i start) ((p.createAnchor start).goOn i (.created start))
  | removed {i : Instance} {created anchor : Address}
      (hphase : p.phase i = .remove created anchor) :
    Steps p (.munmap i)
      ((p.munmap created).goOn i (if anchor = 0 then .returned 0 i else .publish anchor))
  | published {i : Instance} {anchor : Address} (hphase : p.phase i = .publish anchor) :
    Steps p (.publish i) (p.publishSharedRegistry anchor i)

theorem step_cases (h : step p a = some p') : Steps p a p' := by
  cases a with
  | findAnchor i =>
    rw [step] at h
    cases hphase : p.phase i with
    | start =>
      rw [hphase] at h
      obtain rfl := Option.some.inj h
      by_cases hanchor : findAnchor p.mappings = 0
      · rw [if_pos hanchor]
        exact .none hphase hanchor
      · rw [if_neg hanchor]
        exact .found hphase hanchor
    | created created =>
      rw [hphase] at h
      obtain rfl := Option.some.inj h
      by_cases hanchor : findAnchor p.mappings = created
      · rw [if_neg (not_not.mpr hanchor), hanchor]
        exact .kept hphase hanchor
      · rw [if_pos hanchor]
        exact .lost hphase hanchor
    | _ =>
      rw [hphase] at h
      cases h
  | createAnchor i start =>
    rw [step] at h
    cases hphase : p.phase i with
    | create =>
      rw [hphase] at h
      obtain ⟨⟨hstart, hnew⟩, h⟩ := Option.ite_none_right_eq_some.mp h
      obtain rfl := Option.some.inj h
      exact .created hphase hstart hnew
    | _ =>
      rw [hphase] at h
      cases h
  | munmap i =>
    rw [step] at h
    cases hphase : p.phase i with
    | remove created anchor =>
      rw [hphase] at h
      obtain rfl := Option.some.inj h
      exact .removed hphase
    | _ =>
      rw [hphase] at h
      cases h
  | publish i =>
    rw [step] at h
    cases hphase : p.phase i with
    | publish anchor =>
      rw [hphase] at h
      obtain rfl := Option.some.inj h
      exact .published hphase
    | _ =>
      rw [hphase] at h
      cases h

@[simp]
theorem goOn_self (p : Process Instance) (i : Instance) (phase : Phase Instance) :
    (p.goOn i phase).phase i = phase := Function.update_self ..

@[simp]
theorem goOn_of_ne (p : Process Instance) (phase : Phase Instance) (h : j ≠ i) :
    (p.goOn i phase).phase j = p.phase j := Function.update_of_ne h ..

/-! `PublishSharedRegistry` at an anchor that is not mapped, as the first one, and after another. -/

theorem publish_unmapped {anchor : Address} (i : Instance) (h : anchor ∉ p.mappings) :
    p.publishSharedRegistry anchor i = p.goOn i (.faulted anchor) := if_pos h

theorem publish_first {anchor : Address} (i : Instance) (h : anchor ∈ p.mappings)
    (hregistry : p.registry anchor = none) :
    p.publishSharedRegistry anchor i =
      { p with registry := Function.update p.registry anchor (some i) }.goOn i
        (.returned anchor i) := by
  rw [Process.publishSharedRegistry, if_neg (not_not.mpr h), hregistry]

theorem publish_later {anchor : Address} {published : Instance} (i : Instance)
    (h : anchor ∈ p.mappings) (hregistry : p.registry anchor = some published)
    (hmagic : p.magic published = some kSharedRegistryMagic) :
    p.publishSharedRegistry anchor i =
      (p.destroySharedRegistry i).goOn i (.returned anchor published) := by
  rw [Process.publishSharedRegistry, if_neg (not_not.mpr h), hregistry]
  simp only [hmagic, ne_eq, not_true_eq_false, if_false]

end Steps

/-! ### All runs -/

/-- What is known of an instance in its phase. -/
def Process.Knows (p : Process Instance) (i : Instance) : Phase Instance → Prop
  | .start => True
  | .create => p.magic i = some kSharedRegistryMagic
  | .created created => p.magic i = some kSharedRegistryMagic ∧ created ∈ p.mappings
  | .remove created anchor => p.magic i = some kSharedRegistryMagic ∧ anchor ≠ created ∧ anchor ≠ 0
  | .publish anchor => p.magic i = some kSharedRegistryMagic ∧ anchor ≠ 0
  | .returned anchor r =>
    p.magic r = some kSharedRegistryMagic ∧ p.phase r = .returned anchor r ∧ anchor ≠ 0
  | .faulted anchor => anchor ≠ 0

/-- The invariant: an anchor has one owner, and a registry is published where its instance has
returned. -/
structure Process.WellFormed (p : Process Instance) : Prop where
  nonzero : 0 ∉ p.mappings
  used : ∀ a ∈ p.mappings, a ∈ p.used
  owned : ∀ i c, (p.phase i).owned = some c → c ∈ p.used
  unique : ∀ i j c, (p.phase i).owned = some c → (p.phase j).owned = some c → i = j
  knows : ∀ i, p.Knows i (p.phase i)
  registry : ∀ a ∈ p.mappings, ∀ r, p.registry a = some r → p.phase r = .returned a r

theorem wellFormed_init : (init : Process Instance).WellFormed where
  nonzero := List.not_mem_nil
  used := fun _ ha => absurd ha List.not_mem_nil
  owned := by rintro i c ⟨⟩
  unique := by rintro i j c ⟨⟩
  knows := fun _ => trivial
  registry := fun _ ha => absurd ha List.not_mem_nil

/-- A step of one instance leaves what is known of another one. -/
theorem knows_of_ne (hj : j ≠ i) (hreturned : ∀ a r, p.phase i ≠ .returned a r)
    (hphase : ∀ j, j ≠ i → p'.phase j = p.phase j)
    (hmagic : ∀ j, j ≠ i → p'.magic j = p.magic j)
    (hmappings : ∀ c, p.phase j = .created c → c ∈ p.mappings → c ∈ p'.mappings)
    (h : p.Knows j (p.phase j)) : p'.Knows j (p'.phase j) := by
  rw [hphase j hj]
  cases hphasej : p.phase j with
  | start => trivial
  | create =>
    rw [hphasej] at h
    exact (hmagic j hj).trans h
  | created c =>
    rw [hphasej] at h
    exact ⟨(hmagic j hj).trans h.1, hmappings c hphasej h.2⟩
  | remove c anchor =>
    rw [hphasej] at h
    exact ⟨(hmagic j hj).trans h.1, h.2⟩
  | publish anchor =>
    rw [hphasej] at h
    exact ⟨(hmagic j hj).trans h.1, h.2⟩
  | returned anchor r =>
    rw [hphasej] at h
    obtain ⟨hmagicr, hphaser, hanchor⟩ := h
    have hr : r ≠ i := by
      rintro rfl
      exact hreturned anchor r hphaser
    exact ⟨(hmagic r hr).trans hmagicr, (hphase r hr).trans hphaser, hanchor⟩
  | faulted anchor =>
    rw [hphasej] at h
    exact h

/-- A step of an instance that leaves the mappings alone. -/
theorem Process.WellFormed.move (h : p.WellFormed) (hreturned : ∀ a r, p.phase i ≠ .returned a r)
    (hphase : ∀ j, j ≠ i → p'.phase j = p.phase j)
    (hmagic : ∀ j, j ≠ i → p'.magic j = p.magic j)
    (hmappings : p'.mappings = p.mappings) (hused : p'.used = p.used)
    (howned : ∀ c, (p'.phase i).owned = some c →
      c ∈ p.used ∧ ∀ j, j ≠ i → (p.phase j).owned ≠ some c)
    (hknows : p'.Knows i (p'.phase i))
    (hregistry : ∀ a ∈ p.mappings, ∀ r, p'.registry a = some r →
      p.registry a = some r ∨ p'.phase r = .returned a r) : p'.WellFormed where
  nonzero := hmappings ▸ h.nonzero
  used := by
    rw [hmappings, hused]
    exact h.used
  owned := by
    intro j c hc
    rw [hused]
    by_cases hj : j = i
    · exact (howned c (hj ▸ hc)).1
    · exact h.owned j c (hphase j hj ▸ hc)
  unique := by
    intro j k c hjc hkc
    by_cases hj : j = i <;> by_cases hk : k = i
    · rw [hj, hk]
    · rw [hj] at hjc
      rw [hphase k hk] at hkc
      exact absurd hkc ((howned c hjc).2 k hk)
    · rw [hk] at hkc
      rw [hphase j hj] at hjc
      exact absurd hjc ((howned c hkc).2 j hj)
    · rw [hphase j hj] at hjc
      rw [hphase k hk] at hkc
      exact h.unique j k c hjc hkc
  knows := by
    intro j
    by_cases hj : j = i
    · rw [hj]
      exact hknows
    · exact knows_of_ne hj hreturned hphase hmagic (fun _ _ hc => hmappings ▸ hc) (h.knows j)
  registry := by
    intro b hb r hr
    rw [hmappings] at hb
    rcases hregistry b hb r hr with hr | hr
    · have hphaser := h.registry b hb r hr
      have hne : r ≠ i := by
        rintro rfl
        exact hreturned b r hphaser
      exact (hphase r hne).trans hphaser
    · exact hr

/-- An instance that owns nothing new goes on. -/
theorem Process.WellFormed.owned_of_eq (h : p.WellFormed) {phase : Phase Instance}
    (howned : ∀ c, phase.owned = some c → (p.phase i).owned = some c) (c : Address)
    (hc : phase.owned = some c) : c ∈ p.used ∧ ∀ j, j ≠ i → (p.phase j).owned ≠ some c :=
  ⟨h.owned i c (howned c hc), fun j hj hjc => hj (h.unique j i c hjc (howned c hc))⟩

theorem Process.WellFormed.createAnchor (h : p.WellFormed) {start : Address} (hstart : start ≠ 0) :
    (p.createAnchor start).WellFormed where
  nonzero := List.not_mem_cons_of_ne_of_not_mem (Ne.symm hstart) h.nonzero
  used := List.forall_mem_cons.mpr ⟨List.mem_cons_self .., fun a ha =>
    List.mem_cons_of_mem _ (h.used a ha)⟩
  owned := fun i c hc => List.mem_cons_of_mem _ (h.owned i c hc)
  unique := h.unique
  knows := by
    intro i
    have hi := h.knows i
    change (p.createAnchor start).Knows i (p.phase i)
    cases hphase : p.phase i with
    | created c =>
      rw [hphase] at hi
      exact ⟨hi.1, List.mem_cons_of_mem _ hi.2⟩
    | _ =>
      rw [hphase] at hi
      exact hi
  registry := by
    intro a ha r hr
    by_cases hastart : a = start
    · rw [hastart] at hr
      exact absurd (hr.symm.trans (Function.update_self ..)) (Option.some_ne_none r)
    · refine h.registry a ((List.mem_cons.mp ha).resolve_left hastart) r ?_
      exact (Function.update_of_ne hastart ..).symm.trans hr

theorem mem_munmap {start b : Address} :
    b ∈ (p.munmap start).mappings ↔ b ∈ p.mappings ∧ b ≠ start := by
  rw [Process.munmap, List.mem_filter, decide_eq_true_iff]

theorem Process.WellFormed.munmap (h : p.WellFormed) {created anchor : Address}
    (hphase : p.phase i = .remove created anchor) : (p.munmap created).WellFormed where
  nonzero := fun hzero => h.nonzero (mem_munmap.mp hzero).1
  used := fun a ha => h.used a (mem_munmap.mp ha).1
  owned := h.owned
  unique := h.unique
  knows := by
    intro j
    have hj := h.knows j
    change (p.munmap created).Knows j (p.phase j)
    cases hphasej : p.phase j with
    | created c =>
      rw [hphasej] at hj
      refine ⟨hj.1, mem_munmap.mpr ⟨hj.2, ?_⟩⟩
      rintro rfl
      -- Another instance that has created this anchor would own it too.
      obtain rfl := h.unique i j c (hphase ▸ rfl) (hphasej ▸ rfl)
      rw [hphase] at hphasej
      cases hphasej
    | _ =>
      rw [hphasej] at hj
      exact hj
  registry := fun a ha => h.registry a (mem_munmap.mp ha).1

section Runs

variable [DecidableEq Instance]

/-- Only the instance itself is moved on, and what it has allocated. -/
theorem wellFormed_goOn (h : p.WellFormed) {phase : Phase Instance}
    (hreturned : ∀ a r, p.phase i ≠ .returned a r)
    (howned : ∀ c, phase.owned = some c → c ∈ p.used ∧ ∀ j, j ≠ i → (p.phase j).owned ≠ some c)
    (hknows : (p.goOn i phase).Knows i phase) : (p.goOn i phase).WellFormed := by
  refine h.move hreturned (fun j hj => goOn_of_ne p phase hj) (fun _ _ => rfl) rfl rfl ?_ ?_
    fun _ _ _ hr => Or.inl hr
  · rwa [goOn_self]
  · rwa [goOn_self]

/-- The same, of an instance that has just allocated its registry. -/
theorem wellFormed_createSharedRegistry (h : p.WellFormed) {phase : Phase Instance}
    (hphase : p.phase i = .start) (howned : phase.owned = none)
    (hknows : ((p.createSharedRegistry i).goOn i phase).Knows i phase) :
    ((p.createSharedRegistry i).goOn i phase).WellFormed := by
  have hreturned : ∀ a r, p.phase i ≠ .returned a r := by
    intro a r
    rw [hphase]
    rintro ⟨⟩
  refine h.move hreturned (fun j hj => goOn_of_ne _ phase hj)
    (fun j hj => Function.update_of_ne hj ..) rfl rfl ?_ ?_ fun _ _ _ hr => Or.inl hr
  · rw [goOn_self, howned]
    rintro c ⟨⟩
  · rwa [goOn_self]

theorem wellFormed_publish (h : p.WellFormed) {anchor : Address}
    (hphase : p.phase i = .publish anchor) :
    (p.publishSharedRegistry anchor i).WellFormed := by
  have hreturned : ∀ a r, p.phase i ≠ .returned a r := by
    intro a r
    rw [hphase]
    rintro ⟨⟩
  have hknows := h.knows i
  rw [hphase] at hknows
  obtain ⟨hmagic, hanchor⟩ := hknows
  by_cases hmapped : anchor ∈ p.mappings
  swap
  · rw [publish_unmapped i hmapped]
    exact wellFormed_goOn h hreturned (by rintro c ⟨⟩) hanchor
  cases hregistry : p.registry anchor with
  | none =>
    rw [publish_first i hmapped hregistry]
    refine h.move hreturned (fun j hj => goOn_of_ne _ _ hj) (fun _ _ => rfl) rfl rfl ?_ ?_ ?_
    · rw [goOn_self]
      rintro c ⟨⟩
    · rw [goOn_self]
      exact ⟨hmagic, goOn_self .., hanchor⟩
    · intro b _ r hr
      replace hr : Function.update p.registry anchor (some i) b = some r := hr
      by_cases hb : b = anchor
      · subst hb
        rw [Function.update_self] at hr
        obtain rfl := Option.some.inj hr
        exact Or.inr (goOn_self ..)
      · rw [Function.update_of_ne hb] at hr
        exact Or.inl hr
  | some published =>
    have hphasep := h.registry anchor hmapped published hregistry
    have hne : published ≠ i := by
      rintro rfl
      exact hreturned anchor published hphasep
    have hmagicp := h.knows published
    rw [hphasep] at hmagicp
    rw [publish_later i hmapped hregistry hmagicp.1]
    refine h.move hreturned (fun j hj => goOn_of_ne _ _ hj)
      (fun j hj => Function.update_of_ne hj ..) rfl rfl ?_ ?_ fun _ _ _ hr => Or.inl hr
    · rw [goOn_self]
      rintro c ⟨⟩
    · rw [goOn_self]
      exact ⟨(Function.update_of_ne hne ..).trans hmagicp.1, (goOn_of_ne _ _ hne).trans hphasep,
        hanchor⟩

theorem wellFormed_step (h : p.WellFormed) (hstep : step p a = some p') : p'.WellFormed := by
  cases step_cases hstep with
  | none hphase hanchor =>
    exact wellFormed_createSharedRegistry h hphase rfl (Function.update_self ..)
  | found hphase hanchor =>
    exact wellFormed_createSharedRegistry h hphase rfl ⟨Function.update_self .., hanchor⟩
  | @kept i created hphase hanchor =>
    have hknows := h.knows i
    rw [hphase] at hknows
    refine wellFormed_goOn h (by rw [hphase]; rintro a r ⟨⟩) (by rintro c ⟨⟩) ⟨hknows.1, ?_⟩
    rintro rfl
    exact h.nonzero hknows.2
  | @lost i created hphase hanchor =>
    have hknows := h.knows i
    rw [hphase] at hknows
    refine wellFormed_goOn h (by rw [hphase]; rintro a r ⟨⟩) (h.owned_of_eq ?_)
      ⟨hknows.1, hanchor, findAnchor_ne_zero h.nonzero hknows.2⟩
    rw [hphase]
    exact fun c hc => hc
  | @created i start hphase hstart hnew =>
    have hknows := h.knows i
    rw [hphase] at hknows
    have hcreate := h.createAnchor hstart
    refine wellFormed_goOn hcreate (show ∀ a r, p.phase i ≠ _ by rw [hphase]; rintro a r ⟨⟩) ?_
      ⟨hknows, List.mem_cons_self ..⟩
    rintro c ⟨⟩
    exact ⟨List.mem_cons_self .., fun j _ hj => hnew (h.owned j start hj)⟩
  | @removed i created anchor hphase =>
    have hknows := h.knows i
    rw [hphase] at hknows
    rw [if_neg hknows.2.2]
    exact wellFormed_goOn (h.munmap hphase)
      (show ∀ a r, p.phase i ≠ _ by rw [hphase]; rintro a r ⟨⟩) (by rintro c ⟨⟩)
      ⟨hknows.1, hknows.2.2⟩
  | published hphase => exact wellFormed_publish h hphase

/-! ### Runs that keep the lowest address -/

/-- Every anchor that has been chosen is mapped, and the lowest. -/
structure Process.Settled (p : Process Instance) : Prop where
  lowest : ∀ i a, (p.phase i).chosen = some a → IsLeast {b | b ∈ p.mappings} a
  registry : ∀ i a r, p.phase i = .returned a r → p.registry a = some r
  mapped : ∀ i a, p.phase i ≠ .faulted a

omit [DecidableEq Instance] in
theorem settled_init : (init : Process Instance).Settled where
  lowest := by rintro i a ⟨⟩
  registry := by rintro i a r ⟨⟩
  mapped := by rintro i a ⟨⟩

omit [DecidableEq Instance] in
theorem Process.Settled.agrees (h : p.Settled) : p.Agrees where
  same := by
    intro i j a b r r' hi hj
    obtain rfl : a = b := (h.lowest i a (hi ▸ rfl)).unique (h.lowest j b (hj ▸ rfl))
    exact Option.some.inj ((h.registry i a r hi).symm.trans (h.registry j a r' hj))
  mapped := h.mapped

/-- An instance goes on to a phase in which it has not returned. -/
theorem settled_goOn (h : p.Settled) {phase : Phase Instance}
    (hlowest : ∀ a, phase.chosen = some a → IsLeast {b | b ∈ p.mappings} a)
    (hreturned : ∀ a r, phase = .returned a r → p.registry a = some r)
    (hmapped : ∀ a, phase ≠ .faulted a) : (p.goOn i phase).Settled where
  lowest := by
    intro j a hj
    by_cases hji : j = i
    · rw [hji, goOn_self] at hj
      exact hlowest a hj
    · rw [goOn_of_ne p phase hji] at hj
      exact h.lowest j a hj
  registry := by
    intro j a r hj
    by_cases hji : j = i
    · rw [hji, goOn_self] at hj
      exact hreturned a r hj
    · rw [goOn_of_ne p phase hji] at hj
      exact h.registry j a r hj
  mapped := by
    intro j a hj
    by_cases hji : j = i
    · rw [hji, goOn_self] at hj
      exact hmapped a hj
    · rw [goOn_of_ne p phase hji] at hj
      exact h.mapped j a hj

theorem settled_publish (h : p.Settled) (hwell : p.WellFormed) {anchor : Address}
    (hphase : p.phase i = .publish anchor) : (p.publishSharedRegistry anchor i).Settled := by
  have hleast := h.lowest i anchor (hphase ▸ rfl)
  have hmapped : anchor ∈ p.mappings := hleast.1
  have hchosen : ∀ a r, (Phase.returned anchor r : Phase Instance).chosen = some a →
      IsLeast {b | b ∈ p.mappings} a := by
    rintro a r ⟨⟩
    exact hleast
  cases hregistry : p.registry anchor with
  | none =>
    have hupdate : { p with registry := Function.update p.registry anchor (some i) }.Settled := by
      refine ⟨h.lowest, fun j a r hj => ?_, h.mapped⟩
      have ha := h.registry j a r hj
      have hne : a ≠ anchor := by
        rintro rfl
        rw [hregistry] at ha
        cases ha
      exact (Function.update_of_ne hne ..).trans ha
    rw [publish_first i hmapped hregistry]
    refine settled_goOn hupdate (fun a ha => hchosen a i ha) ?_ (by rintro a ⟨⟩)
    rintro a r ⟨⟩
    exact Function.update_self ..
  | some published =>
    have hmagic := hwell.knows published
    rw [hwell.registry anchor hmapped published hregistry] at hmagic
    rw [publish_later i hmapped hregistry hmagic.1]
    have hdestroy : (p.destroySharedRegistry i).Settled := ⟨h.lowest, h.registry, h.mapped⟩
    refine settled_goOn hdestroy (fun a ha => hchosen a published ha) ?_ (by rintro a ⟨⟩)
    rintro a r ⟨⟩
    exact hregistry

theorem settled_step (hkeeps : KeepsLowest p a) (h : p.WellFormed ∧ p.Settled)
    (hstep : step p a = some p') : p'.WellFormed ∧ p'.Settled := by
  refine ⟨wellFormed_step h.1 hstep, ?_⟩
  obtain ⟨hwell, hsettled⟩ := h
  have hcreate : ∀ i, (p.createSharedRegistry i).Settled := fun _ =>
    ⟨hsettled.lowest, hsettled.registry, hsettled.mapped⟩
  cases step_cases hstep with
  | @none i hphase hanchor =>
    exact settled_goOn (hcreate i) (by rintro a ⟨⟩) (by rintro a r ⟨⟩) (by rintro a ⟨⟩)
  | @found i hphase hanchor =>
    refine settled_goOn (hcreate i) ?_ (by rintro a r ⟨⟩) (by rintro a ⟨⟩)
    rintro a ⟨⟩
    exact (findAnchor_eq_iff hwell.nonzero hanchor).mp rfl
  | @kept i created hphase hanchor =>
    have hknows := hwell.knows i
    rw [hphase] at hknows
    refine settled_goOn hsettled ?_ (by rintro a r ⟨⟩) (by rintro a ⟨⟩)
    rintro a ⟨⟩
    refine (findAnchor_eq_iff hwell.nonzero ?_).mp hanchor
    rintro rfl
    exact hwell.nonzero hknows.2
  | @lost i created hphase hanchor =>
    have hknows := hwell.knows i
    rw [hphase] at hknows
    refine settled_goOn hsettled ?_ (by rintro a r ⟨⟩) (by rintro a ⟨⟩)
    rintro a ⟨⟩
    exact (findAnchor_eq_iff hwell.nonzero (findAnchor_ne_zero hwell.nonzero hknows.2)).mp rfl
  | @created i start hphase hstart hnew =>
    have hnext : (p.createAnchor start).Settled := by
      refine ⟨fun j b hj => ?_, fun j b r hj => ?_, hsettled.mapped⟩
      · obtain ⟨hmem, hle⟩ := hsettled.lowest j b hj
        refine ⟨List.mem_cons_of_mem _ hmem, fun c hc => ?_⟩
        rcases List.mem_cons.mp hc with rfl | hc
        · exact hkeeps j b hj
        · exact hle hc
      · have hmem := (hsettled.lowest j b (hj ▸ rfl)).1
        have hne : b ≠ start := by
          rintro rfl
          exact hnew (hwell.used b hmem)
        exact (Function.update_of_ne hne ..).trans (hsettled.registry j b r hj)
    exact settled_goOn hnext (by rintro a ⟨⟩) (by rintro a r ⟨⟩) (by rintro a ⟨⟩)
  | @removed i created anchor hphase =>
    have hknows := hwell.knows i
    rw [hphase] at hknows
    have hleast := hsettled.lowest i anchor (hphase ▸ rfl)
    -- What is unmapped is not what this instance, and so every instance, has chosen.
    have hnext : (p.munmap created).Settled := by
      refine ⟨fun j b hj => ?_, hsettled.registry, hsettled.mapped⟩
      obtain rfl : anchor = b := hleast.unique (hsettled.lowest j b hj)
      exact ⟨mem_munmap.mpr ⟨hleast.1, hknows.2.1⟩, fun c hc => hleast.2 (mem_munmap.mp hc).1⟩
    rw [if_neg hknows.2.2]
    refine settled_goOn hnext ?_ (by rintro a r ⟨⟩) (by rintro a ⟨⟩)
    rintro a ⟨⟩
    exact hnext.lowest i anchor (show (p.phase i).chosen = some anchor from hphase ▸ rfl)
  | published hphase => exact settled_publish hsettled hwell hphase

/-! ### Runs that do not -/

/-- The instance that takes a step. -/
def Action.actor : Action Instance → Instance
  | .findAnchor i => i
  | .createAnchor i _ => i
  | .munmap i => i
  | .publish i => i

theorem publish_of_ne (anchor : Address) (hj : j ≠ i) :
    (p.publishSharedRegistry anchor i).phase j = p.phase j := by
  rw [Process.publishSharedRegistry]
  split
  · exact goOn_of_ne _ _ hj
  split
  · exact goOn_of_ne _ _ hj
  split
  · exact goOn_of_ne _ _ hj
  split <;> exact goOn_of_ne _ _ hj

theorem publish_chosen (anchor : Address) (i : Instance) :
    ((p.publishSharedRegistry anchor i).phase i).chosen = some anchor := by
  rw [Process.publishSharedRegistry]
  split
  · rw [goOn_self]
    rfl
  split
  · rw [goOn_self]
    rfl
  split
  · rw [goOn_self]
    rfl
  split <;> rw [goOn_self] <;> rfl

theorem phase_of_ne_actor (hstep : step p a = some p') (hj : j ≠ a.actor) :
    p'.phase j = p.phase j := by
  cases step_cases hstep with
  | published hphase => exact publish_of_ne _ hj
  | _ => exact goOn_of_ne _ _ hj

/-- An instance keeps to the anchor that it has chosen. -/
theorem chosen_step (h : p.WellFormed) (hstep : step p a = some p') {x : Address}
    (hchosen : (p.phase j).chosen = some x) : (p'.phase j).chosen = some x := by
  by_cases hj : j = a.actor
  swap
  · rwa [phase_of_ne_actor hstep hj]
  subst hj
  cases step_cases hstep with
  | @removed i created anchor hphase =>
    have hknows := h.knows i
    rw [hphase] at hknows
    rw [Action.actor, hphase] at hchosen
    rw [Action.actor, goOn_self, if_neg hknows.2.2]
    exact hchosen
  | @published i anchor hphase =>
    rw [Action.actor, hphase] at hchosen
    exact (publish_chosen anchor i).trans hchosen
  | _ hphase =>
    rw [Action.actor, hphase] at hchosen
    cases hchosen

/-- An instance that has created an anchor at `b` does not choose a higher one. -/
def Phase.Below (b : Address) (phase : Phase Instance) : Prop :=
  phase = .created b ∨ ∃ x, phase.chosen = some x ∧ x ≤ b

theorem below_step (h : p.WellFormed) (hstep : step p a = some p') {b : Address}
    (hbelow : (p.phase j).Below b) : (p'.phase j).Below b := by
  rcases hbelow with hcreated | ⟨x, hchosen, hle⟩
  swap
  · exact Or.inr ⟨x, chosen_step h hstep hchosen, hle⟩
  by_cases hj : j = a.actor
  swap
  · rw [phase_of_ne_actor hstep hj]
    exact Or.inl hcreated
  subst hj
  have hknows := h.knows a.actor
  rw [hcreated] at hknows
  cases step_cases hstep with
  | @kept i created hphase hanchor =>
    obtain rfl : created = b := Phase.created.inj (hphase.symm.trans hcreated)
    rw [Action.actor, goOn_self]
    exact Or.inr ⟨created, rfl, le_rfl⟩
  | @lost i created hphase hanchor =>
    have hleast := (findAnchor_eq_iff h.nonzero (findAnchor_ne_zero h.nonzero hknows.2)).mp rfl
    rw [Action.actor, goOn_self]
    exact Or.inr ⟨_, rfl, hleast.2 hknows.2⟩
  | _ hphase =>
    rw [Action.actor, hphase] at hcreated
    cases hcreated

omit [DecidableEq Instance] in
/-- Once an anchor has been created below one that is chosen, the two instances end apart. -/
theorem disagree_of_below (h : p.WellFormed) (hended : p.Ended) {x b : Address} (hlt : b < x)
    (hchosen : (p.phase i).chosen = some x) (hbelow : (p.phase j).Below b) : ¬p.Agrees := by
  intro hagrees
  obtain ⟨y, hy, hle⟩ : ∃ y, (p.phase j).chosen = some y ∧ y ≤ b := by
    rcases hbelow with hcreated | hbelow
    · rcases hended j with hj | ⟨y, r, hj⟩ | ⟨y, hj⟩ <;> rw [hj] at hcreated <;> cases hcreated
    · exact hbelow
  have hreturned : ∀ k z, (p.phase k).chosen = some z → ∃ r, p.phase k = .returned z r := by
    intro k z hz
    rcases hended k with hk | ⟨w, r, hk⟩ | ⟨w, hk⟩
    · rw [hk] at hz
      cases hz
    · rw [hk] at hz
      obtain rfl : w = z := Option.some.inj hz
      exact ⟨r, hk⟩
    · exact absurd hk (hagrees.mapped k w)
  obtain ⟨r, hr⟩ := hreturned i x hchosen
  obtain ⟨r', hr'⟩ := hreturned j y hy
  obtain rfl : r = r' := hagrees.same i j x y r r' hr hr'
  -- The instance that has allocated the registry has returned at one anchor only.
  have hx := h.knows i
  have hy' := h.knows j
  rw [hr] at hx
  rw [hr'] at hy'
  obtain rfl : x = y := (Phase.returned.inj (hx.2.1.symm.trans hy'.2.1)).1
  exact absurd hle (not_le.mpr hlt)

/-! ### All instances agree -/

theorem wellFormed_run {actions : List (Action Instance)} (h : p.WellFormed)
    (hrun : run step p actions = some p') : p'.WellFormed :=
  Transition.run_invariant_all (fun _ _ _ => wellFormed_step) h hrun

/-- In every interleaving of any number of instances, those that have returned have the same
registry, and none has touched an anchor that was unmapped, if no anchor was created below one that
had been chosen. If all have ended, this is so in no other interleaving. -/
theorem acquire_agrees (actions : List (Action Instance)) (p : Process Instance)
    (hrun : run step init actions = some p) :
    (Along step KeepsLowest init actions → p.Agrees) ∧
      (p.Ended → p.Agrees → Along step KeepsLowest init actions) := by
  constructor
  · intro hkeeps
    have hsettled := Transition.along_invariant
      (fun _ _ _ hkeeps h hstep => settled_step hkeeps h hstep) hkeeps
      ⟨wellFormed_init, settled_init⟩ hrun
    exact hsettled.2.agrees
  · rintro hended hagrees pre a post rfl s hpre
    obtain ⟨s', hpre', hrun⟩ := Transition.run_append_eq_some.mp hrun
    obtain rfl : s = s' := Option.some.inj (hpre.symm.trans hpre')
    obtain ⟨s', hstep, hpost⟩ := Transition.run_cons_eq_some.mp hrun
    have hwell := wellFormed_run wellFormed_init hpre
    cases a with
    | createAnchor i start =>
      intro j x hchosen
      by_contra hlt
      have hcreated : (s'.phase i).Below start := by
        cases step_cases hstep with
        | created hphase hstart hnew => exact Or.inl (goOn_self ..)
      have hlast := Transition.run_invariant_all
        (I := fun q => q.WellFormed ∧ (q.phase j).chosen = some x ∧ (q.phase i).Below start)
        (fun q a q' h hq => ⟨wellFormed_step h.1 hq, chosen_step h.1 hq h.2.1,
          below_step h.1 hq h.2.2⟩)
        ⟨wellFormed_step hwell hstep, chosen_step hwell hstep hchosen, hcreated⟩ hpost
      exact disagree_of_below hlast.1 hended (not_le.mp hlt) hlast.2.1 hlast.2.2 hagrees
    | _ => trivial

/-- Two instances create their anchors before either of them has chosen one. The one whose anchor is
higher unmaps it, and takes the registry that it finds in the other one. -/
def earlyCreation : List (Action Bool) :=
  [.findAnchor false, .findAnchor true, .createAnchor false 8192, .createAnchor true 4096,
    .findAnchor true, .publish true, .findAnchor false, .munmap false, .publish false]

/-- The process at the end. -/
def earlyEnd : Process Bool := (run step init earlyCreation).getD init

theorem earlyCreation_keepsLowest : Along step KeepsLowest init earlyCreation := by
  refine Transition.along_step trivial rfl (Transition.along_step trivial rfl ?_)
  -- no anchor has been chosen when these two are created
  refine Transition.along_step (fun i a h => ?_) rfl
    (Transition.along_step (fun i a h => ?_) rfl ?_)
  · cases i <;> cases h
  · cases i <;> cases h
  · refine Transition.along_step trivial rfl (Transition.along_step trivial rfl ?_)
    refine Transition.along_step trivial rfl (Transition.along_step trivial rfl ?_)
    exact Transition.along_step trivial rfl (Transition.along_nil _ _)

/-- Both instances have the registry that was published in the lower anchor. -/
theorem acquire_agrees_earlyCreation : earlyEnd.Agrees ∧
    earlyEnd.phase false = .returned 4096 true ∧ earlyEnd.phase true = .returned 4096 true :=
  ⟨(acquire_agrees earlyCreation earlyEnd rfl).1 earlyCreation_keepsLowest, rfl, rfl⟩

/-- Two instances find no anchor. The second one creates its anchor when the first one has already
chosen its own, and at a lower address. -/
def lateCreation : List (Action Bool) :=
  [.findAnchor false, .findAnchor true, .createAnchor false 8192, .findAnchor false, .publish false,
    .createAnchor true 4096, .findAnchor true, .publish true]

/-- The process at the end. -/
def lateEnd : Process Bool := (run step init lateCreation).getD init

/-- Each of them publishes its own registry. -/
theorem two_shared_registries : ¬∀ (Instance : Type) [DecidableEq Instance]
    (actions : List (Action Instance)) (p : Process Instance),
    run step init actions = some p → p.Ended → p.Agrees := by
  intro hall
  have hfalse : lateEnd.phase false = .returned 8192 false := rfl
  have htrue : lateEnd.phase true = .returned 4096 true := rfl
  have hended : lateEnd.Ended := by
    intro i
    cases i
    · exact Or.inr (Or.inl ⟨8192, false, hfalse⟩)
    · exact Or.inr (Or.inl ⟨4096, true, htrue⟩)
  have hagrees := hall Bool lateCreation lateEnd rfl hended
  exact Bool.false_ne_true (hagrees.same false true 8192 4096 false true hfalse htrue)

end Runs

end Anchors

end NgLog
