import NgLog.Subprocess.Process

/-!
# The life of child processes

Any number of `Subprocess` objects are constructed, moved and destroyed, and spawn children and wait
for them, one operation after the other. This file shows that every child is reaped exactly once by
the time no object owns it, that it is not killed or waited for after that, that no two objects own
the same id, and that `Wait` returns the code with which the child has exited. The record is right
at any time, also when an operation is still waiting for the system.

## Main definitions

* `Operation`, `perform`, `performAll` — operations on objects
* `Accounted` — every child has an owner, or has been reaped once

## Main results

* `perform_spec` — the invariant of an operation
* `children_accounted` — after every sequence of operations
-/

namespace NgLog

namespace Subprocesses

open Programs

variable {Object : Type}

/-- An operation on objects, which are named. -/
inductive Operation (Object : Type)
  | construct (o : Object)
  | moveConstruct (o other : Object)
  | moveAssign (o other : Object)
  | spawn (o : Object)
  | wait (o : Object) (timeout : ℤ)
  | destroy (o : Object)

/-- The objects that there are. -/
abbrev Objects (Object : Type) : Type := Object → Option Subprocess

/-- The object from which another one has been moved. -/
def Subprocess.released (s : Subprocess) : Subprocess := { s with pid := -1 }

section Operations

variable [DecidableEq Object]

/-- An operation. Objects of different specialisations are not moved to each other, and only an
object that exists is operated on. -/
def perform (v : Object → Variant) (objects : Objects Object) :
    Operation Object → Sys (Objects Object)
  | .construct o =>
    match objects o with
    | none => return Function.update objects o (some Subprocess.init)
    | some _ => return objects
  | .moveConstruct o other =>
    match objects o, objects other with
    | none, some s =>
      if v o = v other then
        return Function.update (Function.update objects other (some s.released)) o (some s)
      else return objects
    | _, _ => return objects
  | .moveAssign o other =>
    match objects o, objects other with
    | some s, some t =>
      if v o = v other ∧ o ≠ other then do
        let _ ← reset (v o) s
        return Function.update (Function.update objects other (some t.released)) o (some t)
      else return objects
    | _, _ => return objects
  | .spawn o =>
    match objects o with
    | some s => do
      let result ← spawn (v o) s
      return Function.update objects o (some result.2)
    | none => return objects
  | .wait o timeout =>
    match objects o with
    | some s => do
      let result ← wait (v o) s timeout
      record (.returned s.child result.1)
      return Function.update objects o (some result.2)
    | none => return objects
  | .destroy o =>
    match objects o with
    | some s => do
      let _ ← reset (v o) s
      return Function.update objects o none
    | none => return objects

/-- One operation after the other. -/
def performAll (v : Object → Variant) : List (Operation Object) → Objects Object →
    Sys (Objects Object)
  | [], objects => return objects
  | operation :: operations, objects => do
    let objects ← perform v objects operation
    performAll v operations objects

end Operations

/-- The child is reaped. -/
def Event.reaps (child : ℕ) : Event → Bool
  | .reaped child' _ => child' = child
  | _ => false

/-- How often a child has been reaped. -/
def reapings (child : ℕ) (events : List Event) : ℕ := events.countP (Event.reaps child)

/-- An object owns the child. -/
def Owns (objects : Objects Object) (pid : ℤ) (child : ℕ) : Prop :=
  ∃ o s, objects o = some s ∧ (pid, child) ∈ s.owned

/-- An id has one owner, and a child that has none has been reaped once. -/
structure Accounted (objects : Objects Object) (events : List Event) : Prop where
  unique : ∀ o o' s s', objects o = some s → objects o' = some s' → 0 ≤ s.pid → s.pid = s'.pid →
    o = o'
  owned : ∀ pid child, Owns objects pid child →
    .forked pid child ∈ events ∧ reapings child events = 0
  reaped : ∀ pid child, .forked pid child ∈ events → ¬Owns objects pid child →
    reapings child events = 1

/-! ### Owners -/

/-- The children of all objects. -/
def ownedBy (objects : Objects Object) : Set (ℤ × ℕ) := {x | Owns objects x.1 x.2}

/-- The child of an object that may exist. -/
def ownedOf (s : Option Subprocess) : Set (ℤ × ℕ) := s.elim ∅ Subprocess.owned

/-- No two objects own the same id. -/
def OneOwner (objects : Objects Object) : Prop :=
  ∀ o o', ∀ x ∈ ownedOf (objects o), ∀ y ∈ ownedOf (objects o'), x.1 = y.1 → o = o'

theorem mem_ownedBy {objects : Objects Object} {x : ℤ × ℕ} :
    x ∈ ownedBy objects ↔ ∃ o, x ∈ ownedOf (objects o) := by
  constructor
  · rintro ⟨o, s, hs, hx⟩
    exact ⟨o, hs ▸ hx⟩
  · rintro ⟨o, hx⟩
    cases hs : objects o with
    | none =>
      rw [hs] at hx
      exact absurd hx (Set.notMem_empty x)
    | some s =>
      rw [hs] at hx
      exact ⟨o, s, hs, hx⟩

theorem ownedOf_subset (objects : Objects Object) (o : Object) :
    ownedOf (objects o) ⊆ ownedBy objects := fun _ hx => mem_ownedBy.mpr ⟨o, hx⟩

section Updates

variable [DecidableEq Object] {objects : Objects Object} {o : Object} {s : Option Subprocess}

/-- An object gives up its child, and may get another one. -/
theorem ownedBy_update (h : OneOwner objects) (o : Object) (s : Option Subprocess) :
    ownedBy (Function.update objects o s) = ownedBy objects \ ownedOf (objects o) ∪ ownedOf s := by
  ext x
  rw [mem_ownedBy]
  constructor
  · rintro ⟨o', hx⟩
    by_cases ho : o' = o
    · rw [ho, Function.update_self] at hx
      exact Or.inr hx
    · rw [Function.update_of_ne ho] at hx
      exact Or.inl ⟨mem_ownedBy.mpr ⟨o', hx⟩, fun hx' => ho (h o' o x hx x hx' rfl)⟩
  · rintro (⟨hx, hnot⟩ | hx)
    · obtain ⟨o', hx⟩ := mem_ownedBy.mp hx
      have ho : o' ≠ o := by
        rintro rfl
        exact hnot hx
      exact ⟨o', by rwa [Function.update_of_ne ho]⟩
    · exact ⟨o, by rwa [Function.update_self]⟩

/-- The new child has an id that no other object owns. -/
theorem OneOwner.update (h : OneOwner objects)
    (hs : ∀ x ∈ ownedOf s, ∀ child, (x.1, child) ∉ ownedBy objects \ ownedOf (objects o)) :
    OneOwner (Function.update objects o s) := by
  have hother : ∀ o' ≠ o, ∀ x ∈ ownedOf s, ∀ y ∈ ownedOf (objects o'), x.1 ≠ y.1 := by
    intro o' ho x hx y hy hxy
    refine hs x hx y.2 ⟨?_, fun hy' => ho (h o' o y hy _ hy' hxy.symm)⟩
    rw [hxy]
    exact ownedOf_subset objects o' hy
  intro o₁ o₂ x hx y hy hxy
  by_cases h₁ : o₁ = o
  · rw [h₁, Function.update_self] at hx
    by_cases h₂ : o₂ = o
    · exact h₁.trans h₂.symm
    · rw [Function.update_of_ne h₂] at hy
      exact absurd hxy (hother o₂ h₂ x hx y hy)
  · rw [Function.update_of_ne h₁] at hx
    by_cases h₂ : o₂ = o
    · rw [h₂, Function.update_self] at hy
      exact absurd hxy.symm (hother o₁ h₁ y hy x hx)
    · rw [Function.update_of_ne h₂] at hy
      exact h o₁ o₂ x hx y hy hxy

theorem OneOwner.update_empty (h : OneOwner objects) (hs : ownedOf s = ∅) :
    OneOwner (Function.update objects o s) := by
  refine h.update fun x hx => ?_
  rw [hs] at hx
  exact absurd hx (Set.notMem_empty x)

/-- The unreaped children are those that the objects own. -/
structure Held (objects : Objects Object) (w : World) : Prop where
  owned : w.Owned (ownedBy objects)
  unique : OneOwner objects

/-- An object has lost its child, which has been reaped. -/
theorem Held.lose {w : World} (h : OneOwner objects) (hs : ownedOf s = ∅)
    (hw : w.Owned (ownedBy objects \ ownedOf (objects o))) :
    Held (Function.update objects o s) w := by
  refine ⟨?_, h.update_empty hs⟩
  rw [ownedBy_update h, hs, Set.union_empty]
  exact hw

/-- The child of an object goes to another one, whose child has been reaped. -/
theorem Held.move {w : World} {other : Object} {t : Subprocess} (h : OneOwner objects)
    (hother : objects other = some t) (hne : o ≠ other)
    (hw : w.Owned (ownedBy objects \ ownedOf (objects o))) :
    Held (Function.update (Function.update objects other (some t.released)) o (some t)) w := by
  have hreleased : ownedOf (some t.released) = ∅ := owned_of_released t
  have hmoved := h.update_empty (o := other) hreleased
  have howned : ownedBy (Function.update objects other (some t.released)) =
      ownedBy objects \ t.owned := by
    rw [ownedBy_update h, hreleased, Set.union_empty, hother]
    rfl
  have ht : ∀ x ∈ t.owned, x ∈ ownedOf (objects other) := fun x hx => by rwa [hother]
  refine ⟨?_, hmoved.update ?_⟩
  · rw [ownedBy_update hmoved, howned, Function.update_of_ne hne]
    have hunion : (ownedBy objects \ t.owned) \ ownedOf (objects o) ∪ ownedOf (some t) =
        ownedBy objects \ ownedOf (objects o) := by
      ext x
      constructor
      · rintro (⟨⟨hx, -⟩, hnot⟩ | hx)
        · exact ⟨hx, hnot⟩
        · exact ⟨ownedOf_subset objects other (ht x hx), fun hx' =>
            hne (h o other x hx' x (ht x hx) rfl)⟩
      · rintro ⟨hx, hnot⟩
        by_cases hxt : x ∈ t.owned
        · exact Or.inr hxt
        · exact Or.inl ⟨⟨hx, hxt⟩, hnot⟩
    rwa [hunion]
  · rintro x hx child ⟨hmem, -⟩
    obtain ⟨o', ho'⟩ := mem_ownedBy.mp hmem
    by_cases heq : o' = other
    · rw [heq, Function.update_self, hreleased] at ho'
      exact Set.notMem_empty _ ho'
    · rw [Function.update_of_ne heq] at ho'
      exact heq (h o' other _ ho' x (ht x hx) rfl)

/-! ### Operations -/

theorem perform_spec (v : Object → Variant) (objects : Objects Object)
    (operation : Operation Object) :
    Triple (Held objects) (perform v objects operation) Held World.Consistent := by
  refine Triple.mono (P := fun w => OneOwner objects ∧ w.Owned (ownedBy objects))
    (Triple.of_fact (P := World.Owned (ownedBy objects)) fun hunique => ?_)
    (fun w hw => ⟨hw.unique, hw.owned⟩) fun _ _ hw => hw
  have hsame : Triple (World.Owned (ownedBy objects)) (pure objects) Held World.Consistent :=
    Triple.pure fun w hw => ⟨hw, hunique⟩
  have hreset : ∀ (o : Object) (s : Subprocess), objects o = some s →
      Triple (World.Owned (ownedBy objects)) (reset (v o) s)
        (fun _ w => w.Owned (ownedBy objects \ ownedOf (objects o))) World.Consistent := by
    intro o s ho
    have hs := ownedOf_subset objects o
    rw [ho] at hs ⊢
    exact (reset_spec (v o) hs).weaken fun _ _ hw => hw.2
  cases operation with
  | construct o =>
    cases ho : objects o with
    | some s => simpa only [perform, ho] using hsame
    | none =>
      simp only [perform, ho]
      refine Triple.pure fun w hw => Held.lose hunique (owned_of_neg (by decide)) ?_
      rw [ho]
      exact hw.of_eq Set.sdiff_empty.symm
  | moveConstruct o other =>
    cases ho : objects o with
    | some s => simpa only [perform, ho] using hsame
    | none =>
      cases hother : objects other with
      | none => simpa only [perform, ho, hother] using hsame
      | some t =>
        simp only [perform, ho, hother]
        split
        swap
        · exact hsame
        have hne : o ≠ other := by
          rintro rfl
          cases ho.symm.trans hother
        refine Triple.pure fun w hw => Held.move hunique hother hne ?_
        rw [ho]
        exact hw.of_eq Set.sdiff_empty.symm
  | moveAssign o other =>
    cases ho : objects o with
    | none => simpa only [perform, ho] using hsame
    | some s =>
      cases hother : objects other with
      | none => simpa only [perform, ho, hother] using hsame
      | some t =>
        simp only [perform, ho, hother]
        split
        swap
        · exact hsame
        rename_i hmoves
        exact (hreset o s ho).bind fun _ => Triple.pure fun w hw =>
          Held.move hunique hother hmoves.2 hw
  | spawn o =>
    cases ho : objects o with
    | none => simpa only [perform, ho] using hsame
    | some s =>
      simp only [perform, ho]
      have hs := ownedOf_subset objects o
      rw [ho] at hs
      refine (spawn_spec (v o) hs).bind fun result => Triple.pure ?_
      rintro w ⟨hw, hnew⟩
      refine ⟨?_, hunique.update ?_⟩
      · rw [ownedBy_update hunique, ho]
        exact hw
      · rw [ho]
        exact hnew
  | wait o timeout =>
    cases ho : objects o with
    | none => simpa only [perform, ho] using hsame
    | some s =>
      simp only [perform, ho]
      have hs := ownedOf_subset objects o
      rw [ho] at hs
      refine (wait_spec (v o) hs timeout).bind fun result => ?_
      refine (Triple.modify (Q := fun _ w => result.2.owned = ∅ ∧
        w.Owned (ownedBy objects \ ownedOf (objects o))) ?_).bind fun _ => Triple.pure ?_
      · rintro w ⟨hempty, hw, hcode⟩
        rw [ho]
        exact ⟨hempty, hw.record hcode id⟩
      · rintro w ⟨hempty, hw⟩
        exact Held.lose hunique hempty hw
  | destroy o =>
    cases ho : objects o with
    | none => simpa only [perform, ho] using hsame
    | some s =>
      simp only [perform, ho]
      exact (hreset o s ho).bind fun _ => Triple.pure fun w hw => Held.lose hunique rfl hw

theorem performAll_spec (v : Object → Variant) (operations : List (Operation Object))
    (objects : Objects Object) :
    Triple (Held objects) (performAll v operations objects) Held World.Consistent := by
  induction operations generalizing objects with
  | nil => exact Triple.pure fun w hw => hw
  | cons operation operations ih => exact (perform_spec v objects operation).bind ih

end Updates

/-! ### Children -/

theorem reapings_eq_zero {child : ℕ} {events : List Event}
    (h : ∀ status, .reaped child status ∉ events) : reapings child events = 0 := by
  refine List.countP_eq_zero.mpr fun e he => ?_
  cases e with
  | reaped child' status =>
    intro hchild
    obtain rfl : child' = child := of_decide_eq_true hchild
    exact h status he
  | _ => exact Bool.false_ne_true

/-- A child that is reaped is reaped once. -/
theorem Proper.reapings_eq_one : ∀ {events : List Event}, Proper events →
    ∀ {child : ℕ} {status : Status}, .reaped child status ∈ events → reapings child events = 1
  | [], _, _, _, h => absurd h List.not_mem_nil
  | e :: events, hproper, child, status, h => by
    rcases List.mem_cons.mp h with rfl | hmem
    · have hreaps : Event.reaps child (.reaped child status) = true := decide_eq_true rfl
      rw [reapings, List.countP_cons_of_pos hreaps]
      exact congrArg (· + 1) (reapings_eq_zero hproper.1.2)
    · have hone := hproper.2.reapings_eq_one hmem
      rw [reapings, List.countP_cons_of_neg]
      · exact hone
      · cases e with
        | reaped child' status' =>
          intro hchild
          obtain rfl : child' = child := of_decide_eq_true hchild
          exact hproper.1.2 status hmem
        | _ => exact Bool.false_ne_true

theorem Held.accounted {objects : Objects Object} {w : World} (h : Held objects w) :
    Accounted objects w.events where
  unique := by
    intro o o' s s' ho ho' hpid heq
    refine h.unique o o' (s.pid, s.child) ?_ (s'.pid, s'.child) ?_ heq
    · rw [ho]
      exact ⟨hpid, rfl⟩
    · rw [ho']
      exact ⟨heq ▸ hpid, rfl⟩
  owned := by
    intro pid child howned
    obtain ⟨hforked, hnot⟩ := h.owned.allowed (show (pid, child) ∈ ownedBy objects from howned)
    exact ⟨hforked, reapings_eq_zero hnot⟩
  reaped := by
    intro pid child hforked howned
    rcases h.owned.consistent.reaped pid child hforked with ⟨status, hreaped⟩ | hchild
    · exact h.owned.consistent.proper.reapings_eq_one hreaped
    · have hmem : (pid, child) ∈ w.unreaped := hchild
      rw [h.owned.unreaped] at hmem
      exact absurd hmem howned

/-- In every sequence of operations, and whatever the system does, everything that is recorded is
allowed, also while an operation has not returned. After the operations every child has an owner,
or has been reaped once. -/
theorem children_accounted [DecidableEq Object] (v : Object → Variant)
    (operations : List (Operation Object)) (moments : List Moment) :
    Proper (exec (performAll v operations fun _ => none) (World.init moments)).2.events ∧
      ∀ objects ∈ (exec (performAll v operations fun _ => none) (World.init moments)).1,
        Accounted objects
          (exec (performAll v operations fun _ => none) (World.init moments)).2.events := by
  have hinit : Held (fun _ : Object => none) (World.init moments) := by
    have howned : ownedBy (fun _ : Object => none) = ∅ := by
      refine Set.eq_empty_iff_forall_notMem.mpr ?_
      rintro x ⟨o, s, ⟨⟩, -⟩
    refine ⟨?_, ?_⟩
    · rw [howned]
      exact owned_init moments
    · intro o o' x hx
      exact absurd hx (Set.notMem_empty x)
  obtain ⟨hreturned, hstopped⟩ := performAll_spec v operations (fun _ => none) _ hinit
  rcases hexec : exec (performAll v operations fun _ => none) (World.init moments) with
    ⟨_ | objects, w⟩
  · exact ⟨(hstopped w hexec).proper, by rintro objects ⟨⟩⟩
  · have hheld := hreturned objects w hexec
    refine ⟨hheld.owned.consistent.proper, ?_⟩
    rintro objects' ⟨⟩
    exact hheld.accounted

/-- A child is created, and has exited when the object waits for it. -/
example :
    let moments : List Moment := List.replicate 6 ⟨[], false, true, 5, 0, 0⟩ ++
      [⟨[(5, .exited 3)], false, true, 5, 0, 0⟩]
    (exec (performAll (fun _ => .posixSpawn) [.construct (), .spawn (), .wait () 1000]
      fun _ => none) (World.init moments)).2.events.head?.any fun
        | .returned 0 (.exited code) => code == 3
        | _ => false := by
  decide +kernel

end Subprocesses

end NgLog
