import Mathlib.Data.List.Perm.Basic
import NgLog.Flags.SavedTexts

/-!
# Several flags saved at once

`MakeScopedFlags` takes pairs of a flag and a value. The pairs are evaluated in an order that the
language leaves open. Each saves the flag and sets the value, and takes a number that tells when.
Then the values are set again in the order of the arguments, so that the last one counts. The
destructor restores the flags in the reverse order of the numbers, so that a flag that occurs more
than once ends up with what was saved first.

A flag that has been registered again, or is not registered any more, is left alone. A flag that was
not registered when it was saved is told by its address only, and restored in any case. It has to be
there: the comment in the source says that such flags are never destroyed.

## Main definitions

* `Argument`, `Pair` — a pair before and after its evaluation
* `evaluate`, `constructPairs`, `destroyPairs` — the evaluation, the constructor and the destructor
* `Kept` — whether the destructor takes a flag for the one that was saved

## Main results

* `evaluate_spec`, `reapplyInOrder_spec`, `restoreAll_reverse` — the three parts
* `scopedPairs_spec` — the values within the scope and after it
* `scopedPairs_restores_unregistered` — a flag that is restored although it has been unregistered
-/

namespace NgLog

namespace FlagObjects

open FlagValues (FlagType FlagValueStorage Operation Refines ScopedFlag Start Storage Values)

open Transition (run)

variable {ι : Type} {Value Store : ι → Type}

/-! ### The code -/

/-- An argument of `MakeScopedFlags`: what is passed to `MakeScopedFlag`. -/
structure Argument (Value : ι → Type) where
  address : Address
  type : ι
  value : Value type

/-- A `ScopedFlag`. -/
structure Pair (Value : ι → Type) where
  address : Address
  type : ι
  scope : ScopedFlag (Value type)
  sequence : ℕ

section Code

variable [DecidableEq ι] [∀ i, Storage (Store i) (Value i)]

/-- `MakeScopedFlag`. -/
def makeScopedFlag (w : World Store) (argument : Argument Value) :
    Option (World Store × Pair Value) := do
  let s ← w.store argument.address argument.type
  let (s, scope) ←
    ScopedFlag.construct s (w.registration argument.address) argument.value
  let w := w.setStore argument.address argument.type s
  let sequence := w.sequence + 1
  return ({ w with sequence }, ⟨argument.address, argument.type, scope, sequence⟩)

/-- The evaluation of the arguments, each with its position. -/
def evaluate (w : World Store) :
    List (Argument Value × ℕ) → Option (World Store × List (Pair Value × ℕ))
  | [] => some (w, [])
  | (argument, position) :: rest => do
    let (w, pair) ← makeScopedFlag w argument
    let (w, pairs) ← evaluate w rest
    return (w, (pair, position) :: pairs)

/-- `ScopedFlag<T>::Reapply`. -/
def reapply (w : World Store) (pair : Pair Value) : Option (World Store) :=
  if pair.scope.registered (w.registration pair.address) then do
    let s ← w.store pair.address pair.type
    let s ← pair.scope.reapply s (w.registration pair.address)
    return w.setStore pair.address pair.type s
  else some w

/-- `ReapplyInOrder`. -/
def reapplyInOrder (w : World Store) : List (Pair Value) → Option (World Store)
  | [] => some w
  | pair :: pairs => (reapply w pair).bind fun w => reapplyInOrder w pairs

/-- `ScopedFlag<T>::Restore`. -/
def restore (w : World Store) (pair : Pair Value) : Option (World Store) :=
  if pair.scope.registered (w.registration pair.address) then do
    let s ← w.store pair.address pair.type
    let s ← pair.scope.restore s (w.registration pair.address)
    return w.setStore pair.address pair.type s
  else some w

/-- Restores the flags of the pairs, one after another. -/
def restoreAll (w : World Store) : List (Pair Value) → Option (World Store)
  | [] => some w
  | pair :: pairs => (restore w pair).bind fun w => restoreAll w pairs

/-- `MakeScopedFlags`, whose arguments are evaluated in the order of the list. The tuple has them at
their positions. -/
def constructPairs (w : World Store) (evaluation : List (Argument Value × ℕ)) :
    Option (World Store × List (Pair Value)) := do
  let (w, evaluated) ← evaluate w evaluation
  let pairs := (evaluated.mergeSort fun x y => x.2 ≤ y.2).map Prod.fst
  let w ← reapplyInOrder w pairs
  return (w, pairs)

/-- The destructor of `ScopedFlags`: `RestoreInReverse`. -/
def destroyPairs (w : World Store) (pairs : List (Pair Value)) : Option (World Store) :=
  restoreAll w (pairs.mergeSort fun x y => x.sequence ≥ y.sequence)

end Code

/-- The flag was not registered when it was saved, or has the same registration. -/
def Kept (w w' : World Store) (a : Address) : Prop :=
  w.entries a = none ∨ w'.entries a = w.entries a

/-! ### One pair -/

section Pairs

variable [DecidableEq ι] [∀ i, Storage (Store i) (Value i)]
  {R : ∀ i, Store i → Values (Value i) → Prop} (hR : ∀ i, Refines (Store i) (R i))
  {w w' : World Store}

/-- What a step of the constructor or the destructor leaves as it is. -/
structure Touches (R : ∀ i, Store i → Values (Value i) → Prop) (addresses : List Address)
    (w w' : World Store) : Prop where
  wellFormed : WellFormed R w'
  entries : w'.entries = w.entries
  others : ∀ a ∉ addresses, w'.objects a = w.objects a
  stores : ∀ a type, (∃ s, w.store a type = some s) → ∃ s, w'.store a type = some s

omit [∀ i, Storage (Store i) (Value i)] in
theorem Touches.trans {addresses addresses' : List Address} {w'' : World Store}
    (h : Touches R addresses w w') (h' : Touches R addresses' w' w'') :
    Touches R (addresses ++ addresses') w w'' where
  wellFormed := h'.wellFormed
  entries := h'.entries.trans h.entries
  others a ha := by
    rw [List.mem_append, not_or] at ha
    rw [h'.others a ha.2, h.others a ha.1]
  stores a type hs := h'.stores a type (h.stores a type hs)

omit [∀ i, Storage (Store i) (Value i)] in
theorem Touches.mono {addresses addresses' : List Address} (h : Touches R addresses w w')
    (hsub : ∀ a ∈ addresses, a ∈ addresses') : Touches R addresses' w w' :=
  ⟨h.wellFormed, h.entries, fun a ha => h.others a fun hmem => ha (hsub a hmem), h.stores⟩

omit [∀ i, Storage (Store i) (Value i)] in
theorem touches_setStore (hw : WellFormed R w) {a : Address} {type : ι} {s s' : Store type}
    (hs : w.store a type = some s) {t : Values (Value type)} (ht : R type s' t) :
    Touches R [a] w (w.setStore a type s') ∧ (w.setStore a type s').Holds R a type t := by
  refine ⟨⟨hw.setStore hs ht, rfl, fun b hb => ?_, fun b type' hs' => ?_⟩,
    s', World.store_setStore_self hs, ht⟩
  · exact World.objects_setStore_of_ne fun hsame => hb (List.mem_singleton.mpr hsame)
  · obtain ⟨s₁, hs₁⟩ := hs'
    by_cases hb : b = a
    · subst hb
      obtain ⟨rfl, -⟩ := World.store_unique hs hs₁
      exact ⟨s', World.store_setStore_self hs⟩
    · exact ⟨s₁, by rw [World.store_setStore_of_ne hb, hs₁]⟩

/-- The pair saves the flag of the argument, under the registration that it has, and its value. -/
def IsPairOf (w : World Store) (argument : Argument Value) (pair : Pair Value) : Prop :=
  ∃ oldValue oldExplicitlySet sequence, pair = ⟨argument.address, argument.type,
    ⟨w.registration argument.address, oldValue, oldExplicitlySet, argument.value⟩, sequence⟩

/-- The flags of some arguments exist. -/
def Exist (w : World Store) (arguments : List (Argument Value)) : Prop :=
  ∀ argument ∈ arguments, ∃ s, w.store argument.address argument.type = some s

omit [∀ i, Storage (Store i) (Value i)] in
theorem Touches.exist {addresses : List Address} (h : Touches R addresses w w')
    {arguments : List (Argument Value)} (hexist : Exist w arguments) : Exist w' arguments :=
  fun argument hargument => h.stores _ _ (hexist argument hargument)

include hR

/-- A pair saves the values of its flag and sets it. -/
theorem makeScopedFlag_spec (hw : WellFormed R w) (argument : Argument Value)
    {t : Values (Value argument.type)} (ht : w.Holds R argument.address argument.type t) :
    ∃ w', makeScopedFlag w argument = some (w', ⟨argument.address, argument.type,
        ⟨w.registration argument.address, t.value, t.explicitlySet, argument.value⟩,
        w.sequence + 1⟩) ∧
      Touches R [argument.address] w w' ∧ w'.sequence = w.sequence + 1 := by
  obtain ⟨s, hs, ht⟩ := ht
  obtain ⟨s', hconstruct, ht'⟩ := FlagValues.construct_spec (hR argument.type) ht
    (w.registration argument.address) argument.value
  have htouches := (touches_setStore hw hs ht').1
  refine ⟨{ w.setStore argument.address argument.type s' with sequence := w.sequence + 1 }, ?_,
    ⟨⟨htouches.wellFormed.represented, htouches.wellFormed.registered_iff,
      htouches.wellFormed.nodup, htouches.wellFormed.named, htouches.wellFormed.positive,
      htouches.wellFormed.bounds⟩, rfl, htouches.others, htouches.stores⟩, rfl⟩
  simp only [makeScopedFlag, hs, hconstruct, Option.bind_eq_bind, Option.bind_some]
  rfl

/-- The evaluation gives a pair for each argument, with increasing numbers. -/
theorem evaluate_spec (hw : WellFormed R w) {evaluation : List (Argument Value × ℕ)}
    (hexist : Exist w (evaluation.map Prod.fst)) :
    ∃ w' evaluated, evaluate w evaluation = some (w', evaluated) ∧
      Touches R (evaluation.map fun x => x.1.address) w w' ∧
      List.Forall₂ (fun x y => IsPairOf w x.1 y.1 ∧ y.2 = x.2) evaluation evaluated ∧
      (evaluated.map Prod.fst).Pairwise (fun pair later => pair.sequence < later.sequence) ∧
      ∀ y ∈ evaluated, w.sequence < y.1.sequence := by
  induction evaluation generalizing w with
  | nil =>
    refine ⟨w, [], rfl, ⟨hw, rfl, fun _ _ => rfl, fun _ _ h => h⟩, .nil, .nil, fun _ h => ?_⟩
    exact absurd h List.not_mem_nil
  | cons x rest ih =>
    obtain ⟨argument, position⟩ := x
    rw [List.map_cons] at hexist
    obtain ⟨s, hs⟩ := hexist argument List.mem_cons_self
    obtain ⟨t, ht⟩ := hw.exists_holds hs
    obtain ⟨w₁, hmake, htouches, hsequence⟩ := makeScopedFlag_spec hR hw argument ht
    have hregistration : w₁.registration = w.registration := by
      funext a
      rw [World.registration, World.registration, htouches.entries]
    obtain ⟨w₂, evaluated, hevaluate, htouches₂, hpairs, hincreasing, hlater⟩ :=
      ih htouches.wellFormed (htouches.exist fun a ha => hexist a (List.mem_cons_of_mem _ ha))
    let pair : Pair Value := ⟨argument.address, argument.type,
      ⟨w.registration argument.address, t.value, t.explicitlySet, argument.value⟩, w.sequence + 1⟩
    refine ⟨w₂, (pair, position) :: evaluated, ?_, htouches.trans htouches₂,
      .cons ⟨⟨_, _, _, rfl⟩, rfl⟩ ?_, ?_, ?_⟩
    · simp only [evaluate, hmake, hevaluate, Option.bind_eq_bind, Option.bind_some]
      rfl
    · refine hpairs.imp fun x y h => ?_
      rwa [IsPairOf, ← hregistration]
    · rw [List.map_cons, List.pairwise_cons]
      refine ⟨fun pair hpair => ?_, hincreasing⟩
      obtain ⟨y, hy, rfl⟩ := List.mem_map.mp hpair
      have hy := hlater y hy
      rwa [hsequence] at hy
    · refine List.forall_mem_cons.mpr ⟨Nat.lt_succ_self _, fun y hy => ?_⟩
      have hy := hlater y hy
      rw [hsequence] at hy
      exact Nat.lt_of_succ_lt hy

/-- A pair whose flag is found sets it again. -/
theorem reapply_spec (hw : WellFormed R w) {pair : Pair Value}
    (hregistered : pair.scope.registered (w.registration pair.address) = true)
    (hs : ∃ s, w.store pair.address pair.type = some s) :
    ∃ w', reapply w pair = some w' ∧ Touches R [pair.address] w w' ∧
      ∃ t, w'.Holds R pair.address pair.type t ∧ t.value = pair.scope.newValue ∧
        t.explicitlySet = true := by
  obtain ⟨s, hs⟩ := hs
  obtain ⟨t, s₁, hs₁, ht⟩ := hw.exists_holds hs
  cases hs.symm.trans hs₁
  obtain ⟨s', hset, ht'⟩ := (hR pair.type).set ht pair.scope.newValue
  obtain ⟨htouches, hholds⟩ := touches_setStore hw hs ht'
  refine ⟨_, ?_, htouches, _, hholds, rfl, rfl⟩
  simp only [reapply, hregistered, if_pos, hs, ScopedFlag.reapply, hset, Option.bind_eq_bind,
    Option.bind_some]
  rfl

/-- After the pairs have set their flags, each flag has the value of its last pair. -/
theorem reapplyInOrder_spec (hw : WellFormed R w) {pairs : List (Pair Value)}
    (hregistered : ∀ pair ∈ pairs,
      pair.scope.registered (w.registration pair.address) = true)
    (hs : ∀ pair ∈ pairs, ∃ s, w.store pair.address pair.type = some s) :
    ∃ w', reapplyInOrder w pairs = some w' ∧ Touches R (pairs.map Pair.address) w w' ∧
      ∀ front pair back, pairs = front ++ pair :: back →
        (∀ later ∈ back, later.address ≠ pair.address) →
          ∃ t, w'.Holds R pair.address pair.type t ∧ t.value = pair.scope.newValue ∧
            t.explicitlySet = true := by
  induction pairs generalizing w with
  | nil =>
    refine ⟨w, rfl, ⟨hw, rfl, fun _ _ => rfl, fun _ _ h => h⟩, fun front pair back h => ?_⟩
    exact absurd h.symm (List.append_ne_nil_of_right_ne_nil _ (List.cons_ne_nil _ _))
  | cons first pairs ih =>
    obtain ⟨hfirst, hregistered⟩ := List.forall_mem_cons.mp hregistered
    obtain ⟨hsFirst, hs⟩ := List.forall_mem_cons.mp hs
    obtain ⟨w₁, hreapply, htouches, t, ht, hvalue, hexplicit⟩ := reapply_spec hR hw hfirst hsFirst
    have hregistration : w₁.registration = w.registration := by
      funext a
      rw [World.registration, World.registration, htouches.entries]
    obtain ⟨w₂, hrest, htouches₂, hlast⟩ := ih htouches.wellFormed (by rwa [hregistration])
      fun pair hpair => htouches.stores _ _ (hs pair hpair)
    refine ⟨w₂, by rw [reapplyInOrder, hreapply, Option.bind_some, hrest],
      htouches.trans htouches₂, fun front pair back hsplit hback => ?_⟩
    rcases List.cons_eq_append_iff.mp hsplit with ⟨rfl, hcons⟩ | ⟨front, rfl, hpairs⟩
    · obtain ⟨rfl, rfl⟩ := List.cons.inj hcons
      obtain ⟨s, hs, ht⟩ := ht
      refine ⟨t, ⟨s, ?_, ht⟩, hvalue, hexplicit⟩
      rw [World.store_congr (htouches₂.others _ fun hmem => ?_), hs]
      obtain ⟨later, hlater, hsame⟩ := List.mem_map.mp hmem
      exact hback later hlater hsame
    · exact hlast front pair back hpairs hback

/-- A pair whose flag is found restores what it has saved. -/
theorem restore_spec (hw : WellFormed R w) {pair : Pair Value}
    (hregistered : pair.scope.registered (w.registration pair.address) = true)
    (hs : ∃ s, w.store pair.address pair.type = some s) :
    ∃ w', restore w pair = some w' ∧ Touches R [pair.address] w w' ∧
      ∃ t, w'.Holds R pair.address pair.type t ∧ t.value = pair.scope.oldValue ∧
        t.explicitlySet = pair.scope.oldExplicitlySet := by
  obtain ⟨s, hs⟩ := hs
  obtain ⟨t, s₁, hs₁, ht⟩ := hw.exists_holds hs
  cases hs.symm.trans hs₁
  obtain ⟨s', hrestore, ht'⟩ :=
    (hR pair.type).restore ht pair.scope.oldValue pair.scope.oldExplicitlySet
  obtain ⟨htouches, hholds⟩ := touches_setStore hw hs ht'
  refine ⟨_, ?_, htouches, _, hholds, rfl, rfl⟩
  simp only [restore, hregistered, if_pos, hs, ScopedFlag.restore, hrestore, Option.bind_eq_bind,
    Option.bind_some]
  rfl

omit hR [DecidableEq ι] [∀ i, Storage (Store i) (Value i)] in
/-- The lock of a pair finds the flag if and only if it is kept. -/
theorem registered_iff_kept (hw : WellFormed R w) (hw' : WellFormed R w') {a : Address} {T : Type}
    {scope : ScopedFlag T} (hscope : scope.registration = w.registration a) :
    scope.registered (w'.registration a) = true ↔ Kept w w' a := by
  rw [ScopedFlag.registered, decide_eq_true_eq, hscope, Kept, World.registration,
    World.registration]
  cases hr : w.entries a with
  | none => exact iff_of_true (.inl rfl) (.inl rfl)
  | some r =>
    have hpos := (hw.bounds a r hr).1
    cases hr' : w'.entries a with
    | none =>
      refine iff_of_false ?_ ?_
      · rintro (hzero | hzero)
        · exact absurd hzero (Nat.ne_of_gt hpos)
        · exact absurd hzero (Nat.ne_of_lt hpos)
      · rintro (h | h) <;> cases h
    | some r' =>
      have hr'pos := (hw'.bounds a r' hr').1
      simp only [Option.getD_some, Option.some.injEq, reduceCtorEq, false_or]
      exact or_iff_right (Nat.ne_of_gt hpos)

/-- The flag has the value that it had, and is set explicitly if it was. -/
def RestoredAt (R : ∀ i, Store i → Values (Value i) → Prop) (w w' : World Store) (a : Address) :
    Prop :=
  ∀ type t, w.Holds R a type t → ∃ t', w'.Holds R a type t' ∧ t'.value = t.value ∧
    t'.explicitlySet = t.explicitlySet

omit hR [∀ i, Storage (Store i) (Value i)] in
theorem restoredAt_congr {w₁ w₁' : World Store} {a : Address} (h : w₁.objects a = w.objects a)
    (h' : w₁'.objects a = w'.objects a) (hrestored : RestoredAt R w₁ w₁' a) :
    RestoredAt R w w' a := by
  rintro type t ⟨s, hs, ht⟩
  obtain ⟨t', ⟨s', hs', ht'⟩, hvalues⟩ :=
    hrestored type t ⟨s, by rw [World.store_congr h, hs], ht⟩
  exact ⟨t', ⟨s', by rw [← World.store_congr h', hs'], ht'⟩, hvalues⟩

omit hR in
theorem restoreAll_concat (w : World Store) (pairs : List (Pair Value)) (pair : Pair Value) :
    restoreAll w (pairs ++ [pair]) = (restoreAll w pairs).bind fun w => restore w pair := by
  induction pairs generalizing w with
  | nil =>
    rw [List.nil_append, restoreAll, restoreAll, Option.bind_some]
    cases restore w pair <;> rfl
  | cons first pairs ih =>
    rw [List.cons_append, restoreAll, restoreAll, Option.bind_assoc]
    exact congrArg _ (funext ih)

/-- The pair that was evaluated in a state restores the flag as it was there. -/
theorem restore_first (hw : WellFormed R w) {a : Address} {type : ι} {t : Values (Value type)}
    (ht : w.Holds R a type t) (hw' : WellFormed R w') (sequence : ℕ) (newValue : Value type)
    (hs : Kept w w' a → ∃ s, w'.store a type = some s) :
    ∃ w'', restore w'
        ⟨a, type, ⟨w.registration a, t.value, t.explicitlySet, newValue⟩, sequence⟩ = some w'' ∧
      Touches R [a] w' w'' ∧ (Kept w w' a → RestoredAt R w w'' a) ∧
      (¬Kept w w' a → w''.objects a = w'.objects a) := by
  let pair : Pair Value :=
    ⟨a, type, ⟨w.registration a, t.value, t.explicitlySet, newValue⟩, sequence⟩
  have hregistered : pair.scope.registered (w'.registration pair.address) = true ↔ Kept w w' a :=
    registered_iff_kept hw hw' rfl
  by_cases hkept : Kept w w' a
  · obtain ⟨w'', hrestore, htouches, t'', ht'', hvalue, hexplicit⟩ :=
      restore_spec hR hw' (hregistered.mpr hkept) (hs hkept)
    refine ⟨w'', hrestore, htouches, fun _ type' t' ht' => ?_, fun h => absurd hkept h⟩
    have hhas := ht'.has hR
    obtain rfl := ht.type_eq hhas
    obtain ⟨hsame, hsame'⟩ := (ht.has_iff hR _ _).mp hhas
    exact ⟨t'', ht'', by rw [hvalue, hsame], by rw [hexplicit, hsame']⟩
  · refine ⟨w', ?_, ⟨hw', rfl, fun _ _ => rfl, fun _ _ h => h⟩, fun h => absurd h hkept,
      fun _ => rfl⟩
    rw [restore, if_neg fun h => hkept (hregistered.mp h)]

/-- The pairs restore their flags in the reverse order of their evaluation. By induction on the
evaluation: the first pair restores its flag last, so it does not matter what the others have made
of it. -/
theorem restoreAll_reverse (hw : WellFormed R w) {evaluation : List (Argument Value × ℕ)}
    (hexist : Exist w (evaluation.map Prod.fst)) {evaluated : List (Pair Value × ℕ)}
    (hevaluate : evaluate w evaluation = some (w', evaluated)) {w₂ : World Store}
    (hw₂ : WellFormed R w₂)
    (hstores : ∀ x ∈ evaluation, Kept w w₂ x.1.address →
      ∃ s, w₂.store x.1.address x.1.type = some s) :
    ∃ w₃, restoreAll w₂ (evaluated.map Prod.fst).reverse = some w₃ ∧
      Touches R (evaluation.map fun x => x.1.address) w₂ w₃ ∧
      ∀ a ∈ evaluation.map fun x => x.1.address,
        (Kept w w₂ a → RestoredAt R w w₃ a) ∧ (¬Kept w w₂ a → w₃.objects a = w₂.objects a) := by
  induction evaluation generalizing w evaluated with
  | nil =>
    obtain ⟨rfl, rfl⟩ := Prod.mk.inj (Option.some.inj hevaluate)
    exact ⟨w₂, rfl, ⟨hw₂, rfl, fun _ _ => rfl, fun _ _ h => h⟩,
      fun _ h => absurd h List.not_mem_nil⟩
  | cons x rest ih =>
    obtain ⟨argument, position⟩ := x
    rw [List.map_cons] at hexist
    obtain ⟨s, hs⟩ := hexist argument List.mem_cons_self
    obtain ⟨t, ht⟩ := hw.exists_holds hs
    obtain ⟨w₁, hmake, htouches, -⟩ := makeScopedFlag_spec hR hw argument ht
    simp only [evaluate, hmake, Option.bind_eq_bind, Option.bind_some] at hevaluate
    obtain ⟨⟨w'', evaluated'⟩, hrest, heq⟩ := Option.bind_eq_some_iff.mp hevaluate
    obtain ⟨rfl, rfl⟩ := Prod.mk.inj (Option.some.inj heq)
    have hkept (a : Address) : Kept w₁ w₂ a ↔ Kept w w₂ a := by
      rw [Kept, Kept, htouches.entries]
    obtain ⟨w₃, hw₃, htouches₃, hrestored⟩ := ih htouches.wellFormed
      (htouches.exist fun a ha => hexist a (List.mem_cons_of_mem _ ha)) hrest
      fun x hx hx' => hstores x (List.mem_cons_of_mem _ hx) ((hkept _).mp hx')
    obtain ⟨w₄, hw₄, htouches₄, hfirst⟩ := restore_first hR hw ht htouches₃.wellFormed
      (w.sequence + 1) argument.value (fun hkept₃ => htouches₃.stores _ _ (hstores _
        List.mem_cons_self (by rwa [Kept, htouches₃.entries] at hkept₃)))
    have hkept₃ : Kept w w₃ argument.address ↔ Kept w w₂ argument.address := by
      rw [Kept, Kept, htouches₃.entries]
    rw [hkept₃] at hfirst
    refine ⟨w₄, ?_, (htouches₃.trans htouches₄).mono fun a ha => ?_, fun a ha => ?_⟩
    · rw [List.map_cons, List.reverse_cons, restoreAll_concat, hw₃, Option.bind_some, hw₄]
    · rw [List.map_cons, List.mem_cons]
      exact (List.mem_append.mp ha).symm.imp_left List.mem_singleton.mp
    · by_cases hsame : a = argument.address
      · subst hsame
        refine ⟨hfirst.1, fun hgone => (hfirst.2 hgone).trans ?_⟩
        by_cases hmem : argument.address ∈ rest.map fun x => x.1.address
        · exact (hrestored _ hmem).2 fun h => hgone ((hkept _).mp h)
        · exact htouches₃.others _ hmem
      · have hmem : a ∈ rest.map fun x => x.1.address := (List.mem_cons.mp ha).resolve_left hsame
        have hne : a ∉ [argument.address] := fun h => hsame (List.mem_singleton.mp h)
        obtain ⟨hkeptRest, hgoneRest⟩ := hrestored a hmem
        rw [hkept] at hkeptRest hgoneRest
        exact ⟨fun h => restoredAt_congr (htouches.others a hne) (htouches₄.others a hne).symm
          (hkeptRest h), fun h => (htouches₄.others a hne).trans (hgoneRest h)⟩

end Pairs

/-! ### The orders of the pairs -/

/-- Sorting gives the permutation in which every element comes strictly before the later ones. -/
theorem mergeSort_eq_of_perm {α : Type*} {le : α → α → Bool}
    (htrans : ∀ a b c : α, le a b = true → le b c = true → le a c = true)
    (htotal : ∀ a b : α, (le a b || le b a) = true) {list ordered : List α}
    (hperm : list.Perm ordered) (hordered : ordered.Pairwise fun a b => le b a = false) :
    list.mergeSort le = ordered := by
  have hle : ordered.Pairwise fun a b => le a b = true := hordered.imp fun {a b} h => by
    have htotal := htotal a b
    rwa [h, Bool.or_false] at htotal
  have hsame : ∀ a ∈ ordered, ∀ b ∈ ordered, le a b = true → le b a = true → a = b := by
    refine List.Pairwise.forall_of_forall_of_flip (fun _ _ _ _ => rfl) ?_ ?_
    · exact hordered.imp fun h _ h' => by cases h.symm.trans h'
    · exact hordered.imp fun h h' _ => by cases h.symm.trans h'
  have hsorted := (List.mergeSort_perm list le).trans hperm
  exact List.Perm.eq_of_pairwise (fun a b ha hb => hsame a (hsorted.mem_iff.mp ha) b hb)
    (List.pairwise_mergeSort htrans htotal list) hle hsorted

/-- Sorted by position, the pairs are those of the arguments in their order. -/
theorem pairs_of_evaluated {w : World Store} {arguments : List (Argument Value)}
    {evaluation : List (Argument Value × ℕ)} (hperm : evaluation.Perm arguments.zipIdx)
    {evaluated : List (Pair Value × ℕ)}
    (h : List.Forall₂ (fun x y => IsPairOf w x.1 y.1 ∧ y.2 = x.2) evaluation evaluated) :
    List.Forall₂ (IsPairOf w) arguments
      ((evaluated.mergeSort fun x y => x.2 ≤ y.2).map Prod.fst) := by
  obtain ⟨ordered, hordered, hsame⟩ := List.perm_comp_forall₂ hperm.symm h
  have hpositions : ordered.map Prod.snd = arguments.zipIdx.map Prod.snd := by
    refine List.forall₂_eq_eq_eq ▸ List.forall₂_map_left_iff.mpr (List.forall₂_map_right_iff.mpr ?_)
    exact (hordered.imp fun _ _ h => h.2).flip
  have hsorted : ordered.Pairwise fun x y => decide (y.2 ≤ x.2) = false := by
    have hlt := @List.pairwise_lt_range' 0 arguments.length 1 (by decide)
    rw [← List.zipIdx_map_snd, ← hpositions, List.pairwise_map] at hlt
    exact hlt.imp fun h => decide_eq_false (Nat.not_le_of_lt h)
  rw [mergeSort_eq_of_perm (fun a b c hab hbc => ?_) (fun a b => ?_) hsame.symm hsorted]
  · have harguments := List.zipIdx_map_fst 0 arguments
    rw [← harguments]
    exact List.forall₂_map_left_iff.mpr (List.forall₂_map_right_iff.mpr
      (hordered.imp fun _ _ h => h.1))
  · exact decide_eq_true ((of_decide_eq_true hab).trans (of_decide_eq_true hbc))
  · rw [Bool.or_eq_true, decide_eq_true_eq, decide_eq_true_eq]
    exact Nat.le_total a.2 b.2

theorem forall₂_append_cons {α β : Type*} {P : α → β → Prop} {front back : List α} {a : α}
    {list : List β} (h : List.Forall₂ P (front ++ a :: back) list) :
    ∃ front' b back', list = front' ++ b :: back' ∧ P a b ∧ List.Forall₂ P back back' := by
  induction front generalizing list with
  | nil =>
    obtain ⟨b, back', hab, hback, rfl⟩ := List.forall₂_cons_left_iff.mp h
    exact ⟨[], b, back', rfl, hab, hback⟩
  | cons x front ih =>
    obtain ⟨y, list, -, hrest, rfl⟩ := List.forall₂_cons_left_iff.mp h
    obtain ⟨front', b, back', rfl, hab, hback⟩ := ih hrest
    exact ⟨y :: front', b, back', rfl, hab, hback⟩

theorem exists_of_forall₂ {α β : Type*} {P : α → β → Prop} {list : List α} {list' : List β}
    (h : List.Forall₂ P list list') : ∀ b ∈ list', ∃ a ∈ list, P a b := by
  induction h with
  | nil => exact fun _ hb => absurd hb List.not_mem_nil
  | cons hab _ ih =>
    refine List.forall_mem_cons.mpr ⟨⟨_, List.mem_cons_self, hab⟩, fun b hb => ?_⟩
    obtain ⟨a, ha, hab⟩ := ih b hb
    exact ⟨a, List.mem_cons_of_mem _ ha, hab⟩

/-- Sorted by their numbers, the pairs are in the reverse order of the evaluation. -/
theorem restoreOrder {evaluated pairs : List (Pair Value)} (hperm : pairs.Perm evaluated)
    (hincreasing : evaluated.Pairwise fun pair later => pair.sequence < later.sequence) :
    (pairs.mergeSort fun x y => x.sequence ≥ y.sequence) = evaluated.reverse := by
  refine mergeSort_eq_of_perm (fun a b c hab hbc => ?_) (fun a b => ?_)
    (hperm.trans evaluated.reverse_perm.symm) ?_
  · exact decide_eq_true ((of_decide_eq_true hbc).trans (of_decide_eq_true hab))
  · rw [Bool.or_eq_true, decide_eq_true_eq, decide_eq_true_eq]
    exact Nat.le_total b.sequence a.sequence
  · rw [List.pairwise_reverse]
    exact hincreasing.imp fun h => decide_eq_false (Nat.not_le_of_lt h)

/-! ### Flags of all types -/

section AllTypes

variable {τ : Type} (T : τ → Type)

/-- The values of flags of the built-in types and of others. -/
def AnyValue : FlagType ⊕ τ → Type
  | .inl type => type.Value
  | .inr type => T type

/-- The storages of flags of the built-in types and of others. -/
def AnyStore : FlagType ⊕ τ → Type
  | .inl type => BuiltinStore type
  | .inr type => FlagValueStorage (T type)

instance anyStorage : (type : FlagType ⊕ τ) → Storage (AnyStore T type) (AnyValue T type)
  | .inl type => inferInstanceAs (Storage (BuiltinStore type) type.Value)
  | .inr type => inferInstanceAs (Storage (FlagValueStorage (T type)) (T type))

/-- The constructors of the storages. -/
def anyStart : (type : FlagType ⊕ τ) → Start (AnyValue T type) → AnyStore T type
  | .inl type => builtinStart type
  | .inr _ => FlagValueStorage.start

/-- What the storages stand for. -/
def AnyRepresents : (type : FlagType ⊕ τ) → AnyStore T type → Values (AnyValue T type) → Prop
  | .inl type => BuiltinRepresents type
  | .inr _ => fun s t => s.storage.Represents t ∧ True

theorem refines_any (type : FlagType ⊕ τ) : Refines (AnyStore T type) (AnyRepresents T type) := by
  cases type with
  | inl type => exact refines_builtin type
  | inr type => exact FlagValues.refines_locked _

theorem represents_anyStart (type : FlagType ⊕ τ) (start : Start (AnyValue T type)) :
    AnyRepresents T type (anyStart T type start) (.init start.value) := by
  cases type with
  | inl type => exact represents_builtinStart type start
  | inr type => exact ⟨FlagValues.LockedFlagValueStorage.represents_start start, trivial⟩

/-- For flags of all types, in every reachable state, for all pairs and every order of their
evaluation: within the scope each flag has the value of its last pair. After any steps, the
destructor gives each flag that is kept the value that it had before, set explicitly or not, and
leaves the others alone. A flag that was not registered when it was saved has to be there still. -/
theorem scopedPairs_spec [DecidableEq τ] {before : List (Action (AnyValue T))}
    {w : World (AnyStore T)} (hrun : run (step (anyStart T)) World.empty before = some w)
    {arguments : List (Argument (AnyValue T))} (hexist : Exist w arguments)
    {evaluation : List (Argument (AnyValue T) × ℕ)} (hperm : evaluation.Perm arguments.zipIdx) :
    ∃ w₁ pairs, constructPairs w evaluation = some (w₁, pairs) ∧
      (∀ front argument back, arguments = front ++ argument :: back →
        (∀ later ∈ back, later.address ≠ argument.address) →
          w₁.Has argument.address argument.type argument.value true) ∧
      ∀ within w₂, run (step (anyStart T)) w₁ within = some w₂ →
        (∀ argument ∈ arguments, w.entries argument.address = none →
          ∃ s, w₂.store argument.address argument.type = some s) →
        ∃ w₃, destroyPairs w₂ pairs = some w₃ ∧
          (∀ argument ∈ arguments, Kept w w₂ argument.address →
            ∀ v explicitlySet, w.Has argument.address argument.type v explicitlySet →
              w₃.Has argument.address argument.type v explicitlySet) ∧
          ∀ a, ((∀ argument ∈ arguments, argument.address ≠ a) ∨ ¬Kept w w₂ a) →
            w₃.objects a = w₂.objects a := by
  have hR := refines_any T
  have hw := wellFormed_run hR (represents_anyStart T) (wellFormed_empty _) hrun
  have harguments : (evaluation.map Prod.fst).Perm arguments := by
    have hfst := hperm.map Prod.fst
    rwa [List.zipIdx_map_fst] at hfst
  have haddress (a : Address) : a ∈ (evaluation.map fun x => x.1.address) ↔
      ∃ argument ∈ arguments, argument.address = a := by
    have hmap : (evaluation.map fun x => x.1.address) =
        (evaluation.map Prod.fst).map Argument.address := by
      rw [List.map_map]
      rfl
    rw [hmap, (harguments.map _).mem_iff, List.mem_map]
  have hexistEvaluation : Exist w (evaluation.map Prod.fst) := fun argument hmem =>
    hexist argument (harguments.mem_iff.mp hmem)
  obtain ⟨w', evaluated, hevaluate, htouches, hpairs, hincreasing, -⟩ :=
    evaluate_spec hR hw hexistEvaluation
  have hordered := pairs_of_evaluated hperm hpairs
  obtain ⟨pairs, hpairsEq⟩ : ∃ pairs,
      (evaluated.mergeSort fun x y => x.2 ≤ y.2).map Prod.fst = pairs := ⟨_, rfl⟩
  rw [hpairsEq] at hordered
  have hregistration : w'.registration = w.registration := by
    funext a
    rw [World.registration, World.registration, htouches.entries]
  have hsaved : ∀ pair ∈ pairs, pair.scope.registered (w'.registration pair.address) = true ∧
      ∃ s, w'.store pair.address pair.type = some s := by
    intro pair hpair
    obtain ⟨argument, hargument, _, _, _, rfl⟩ := exists_of_forall₂ hordered pair hpair
    exact ⟨decide_eq_true (.inr (by rw [hregistration])), htouches.exist hexist argument hargument⟩
  obtain ⟨w₁, hreapply, htouches₁, hlast⟩ := reapplyInOrder_spec hR htouches.wellFormed
    (fun pair hpair => (hsaved pair hpair).1) fun pair hpair => (hsaved pair hpair).2
  have hentries₁ : w₁.entries = w.entries := htouches₁.entries.trans htouches.entries
  refine ⟨w₁, pairs, ?_, fun front argument back hsplit hback => ?_,
    fun within w₂ hwithin hlive => ?_⟩
  · simp only [constructPairs, hevaluate, hpairsEq, hreapply, Option.bind_eq_bind,
      Option.bind_some]
    rfl
  · subst hsplit
    obtain ⟨front', pair, back', hsplit, ⟨_, _, _, rfl⟩, hlater⟩ := forall₂_append_cons hordered
    obtain ⟨t, ht, hvalue, hexplicit⟩ := hlast front' _ back' hsplit fun later hlaterMem hsame => by
      obtain ⟨argument', hargument', _, _, _, rfl⟩ := exists_of_forall₂ hlater later hlaterMem
      exact hback argument' hargument' hsame
    exact (ht.has_iff hR _ _).mpr ⟨hvalue.symm, hexplicit.symm⟩
  · have hw₂ := wellFormed_run hR (represents_anyStart T) htouches₁.wellFormed hwithin
    have hstores : ∀ x ∈ evaluation, Kept w w₂ x.1.address →
        ∃ s, w₂.store x.1.address x.1.type = some s := by
      intro x hx hkept
      have hargument : x.1 ∈ arguments := harguments.mem_iff.mp (List.mem_map_of_mem hx)
      cases hr : w.entries x.1.address with
      | none => exact hlive x.1 hargument hr
      | some r =>
        obtain ⟨s, hs⟩ := htouches₁.exist (htouches.exist hexist) x.1 hargument
        have hr₂ : w₂.entries x.1.address = some r := by
          rcases hkept with hnone | hsame
          · cases hr.symm.trans hnone
          · rw [hsame, hr]
        exact stays_run hR (represents_anyStart T) htouches₁.wellFormed hwithin hs
          (by rw [hentries₁, hr]) hr₂
    obtain ⟨w₃, hw₃, htouches₃, hrestored⟩ :=
      restoreAll_reverse hR hw hexistEvaluation hevaluate hw₂ hstores
    have hpermPairs : pairs.Perm (evaluated.map Prod.fst) :=
      hpairsEq ▸ (List.mergeSort_perm evaluated _).map Prod.fst
    refine ⟨w₃, ?_, fun argument hargument hkept v explicitlySet hv => ?_, fun a ha => ?_⟩
    · rw [destroyPairs, restoreOrder hpermPairs hincreasing, hw₃]
    · obtain ⟨s, hs⟩ := hexist argument hargument
      obtain ⟨t, ht⟩ := hw.exists_holds hs
      obtain ⟨rfl, rfl⟩ := (ht.has_iff hR _ _).mp hv
      obtain ⟨t', ht', hvalue, hexplicit⟩ :=
        (hrestored _ ((haddress _).mpr ⟨argument, hargument, rfl⟩)).1 hkept _ t ht
      exact (ht'.has_iff hR _ _).mpr ⟨hvalue.symm, hexplicit.symm⟩
    · by_cases hmem : a ∈ evaluation.map fun x => x.1.address
      · obtain ⟨argument, hargument, hsame⟩ := (haddress a).mp hmem
        exact (hrestored a hmem).2 (ha.resolve_left fun hnone => hnone argument hargument hsame)
      · exact htouches₃.others a hmem

/-- Only flags of the built-in types. -/
abbrev NoOthers : Empty → Type := nofun

/-- A flag that is neither registered nor set explicitly, with two pairs of which the last one is
evaluated first. -/
theorem scopedPairs_spec_twice : ∃ w w₁ w₃ pairs,
    run (step (anyStart NoOthers)) World.empty
        [.create 0 (bytes "flag") (.inl .bool) (.eagerly false)] = some w ∧
      constructPairs w [(⟨0, .inl .bool, true⟩, 1), (⟨0, .inl .bool, false⟩, 0)] =
        some (w₁, pairs) ∧
      w₁.Has 0 (.inl .bool) true true ∧ destroyPairs w₁ pairs = some w₃ ∧
      w₃.Has 0 (.inl .bool) false false := by
  obtain ⟨w, hrun, hs, hhas, hregistered⟩ : ∃ w, run (step (anyStart NoOthers)) World.empty
      [.create 0 (bytes "flag") (.inl .bool) (.eagerly false)] = some w ∧
        (∃ s, w.store 0 (.inl .bool) = some s) ∧ w.Has 0 (.inl .bool) false false ∧
        w.entries 0 = none :=
    ⟨_, rfl, ⟨_, rfl⟩, ⟨_, _, _, rfl, rfl, rfl⟩, rfl⟩
  let first : Argument (AnyValue NoOthers) := ⟨0, .inl .bool, false⟩
  let last : Argument (AnyValue NoOthers) := ⟨0, .inl .bool, true⟩
  have hexist : Exist w [first, last] :=
    List.forall_mem_cons.mpr ⟨hs, List.forall_mem_singleton.mpr hs⟩
  obtain ⟨w₁, pairs, hconstruct, hwithin, hafter⟩ :=
    scopedPairs_spec NoOthers hrun hexist (.swap (first, 0) (last, 1) [])
  have hset : w₁.Has 0 (.inl .bool) true true :=
    hwithin [first] last [] rfl fun later h => absurd h List.not_mem_nil
  have hlive : ∃ s, w₁.store 0 (.inl .bool) = some s := by
    obtain ⟨s, -, -, hs, -⟩ := hset
    exact ⟨s, hs⟩
  obtain ⟨w₃, hdestroy, hrestored, -⟩ := hafter [] w₁ rfl <|
    List.forall_mem_cons.mpr ⟨fun _ => hlive, List.forall_mem_singleton.mpr fun _ => hlive⟩
  exact ⟨w, w₁, w₃, pairs, hrun, hconstruct, hset, hdestroy,
    hrestored first List.mem_cons_self (.inl hregistered) false false hhas⟩

/-- A flag that is not registered, is registered within the scope and unregistered again. -/
theorem scopedPairs_restores_unregistered : ∃ w w₁ pairs w₂ w₃,
    run (step (anyStart NoOthers)) World.empty
        [.create 0 (bytes "flag") (.inl .bool) (.eagerly false)] = some w ∧
      constructPairs w [(⟨0, .inl .bool, true⟩, 0)] = some (w₁, pairs) ∧
      run (step (anyStart NoOthers)) w₁ [.registerFlag 0, .unregisterFlag 0] = some w₂ ∧
      destroyPairs w₂ pairs = some w₃ ∧ w₂.Has 0 (.inl .bool) true true ∧
      w₃.Has 0 (.inl .bool) false false := by
  obtain ⟨w, hrun, w', pair, hevaluate, w₁, hreapply, w₂, hwithin, hset, w₃, hrestore, hrestored⟩ :
      ∃ w, run (step (anyStart NoOthers)) World.empty
          [.create 0 (bytes "flag") (.inl .bool) (.eagerly false)] = some w ∧
        ∃ w' pair, evaluate w [(⟨0, .inl .bool, true⟩, 0)] = some (w', [(pair, 0)]) ∧
        ∃ w₁, reapplyInOrder w' [pair] = some w₁ ∧
        ∃ w₂, run (step (anyStart NoOthers)) w₁ [.registerFlag 0, .unregisterFlag 0] = some w₂ ∧
          w₂.Has 0 (.inl .bool) true true ∧
        ∃ w₃, restoreAll w₂ [pair] = some w₃ ∧ w₃.Has 0 (.inl .bool) false false :=
    ⟨_, rfl, _, _, rfl, _, rfl, _, rfl, ⟨_, _, _, rfl, rfl, rfl⟩, _, rfl, _, _, _, rfl, rfl, rfl⟩
  refine ⟨w, w₁, [pair], w₂, w₃, hrun, ?_, hwithin, ?_, hset, hrestored⟩
  · simp only [constructPairs, hevaluate, Option.bind_eq_bind, Option.bind_some,
      List.mergeSort_singleton, List.map_cons, List.map_nil, hreapply]
    rfl
  · rw [destroyPairs, List.mergeSort_singleton, hrestore]

end AllTypes

end FlagObjects

end NgLog
