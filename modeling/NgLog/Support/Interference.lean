import Mathlib.Logic.Function.Basic
import NgLog.Support.Transition

/-!
# Calls that share a state

Any number of calls run on a shared state, each of them in atomic steps, in any order. A call that
another one makes is a call of its own, which runs while the other one does not take a step.

What is known of a call at the point where it is has to survive the steps of the others. So each
step of a call comes with a guarantee, a relation between the shared state before and after it,
under which what is known of any other call remains true.

## Main definitions

* `Code`, `State`, `Event`, `step` — the calls and their steps
* `Respects` — an invariant, what is known of each call, and what each call guarantees
* `Holds` — the invariant and what is known, at a point of a run

## Main results

* `holds_run` — they hold after every run
-/

namespace NgLog

namespace Interference

variable {C R S P : Type*}

/-- What calls do: where a call with a request begins, and its steps. A call that has returned, or
that has to wait, takes none. -/
structure Code (C R S P : Type*) where
  enter : S → R → Option P
  next : C → S → P → Option (S × P)

/-- The shared state, and where each call is that has begun. -/
structure State (C S P : Type*) where
  shared : S
  phase : C → Option P

/-- What happens next: a call begins or takes a step. -/
inductive Event (C R : Type*)
  | enter (call : C) (request : R)
  | next (call : C)

/-- No call has begun. -/
def State.init (shared : S) : State C S P := ⟨shared, fun _ => none⟩

/-- One step of the system. -/
def step [DecidableEq C] (code : Code C R S P) (w : State C S P) :
    Event C R → Option (State C S P)
  | .enter call request =>
    match w.phase call with
    | none => (code.enter w.shared request).map fun p =>
      { w with phase := Function.update w.phase call (some p) }
    | some _ => none
  | .next call =>
    match w.phase call with
    | none => none
    | some p => (code.next call w.shared p).map fun result =>
      ⟨result.1, Function.update w.phase call (some result.2)⟩

/-- The steps keep an invariant and what is known of their call, and guarantee to the other calls
that what is known of them remains true. -/
structure Respects (code : Code C R S P) (I : S → Prop) (L : C → S → P → Prop)
    (G : C → S → S → Prop) : Prop where
  enter : ∀ call s request p, I s → code.enter s request = some p → L call s p
  next : ∀ call s p s' p', I s → L call s p → code.next call s p = some (s', p') →
    I s' ∧ L call s' p' ∧ G call s s'
  stable : ∀ call other s s' p, other ≠ call → I s → G call s s' → L other s p → L other s' p

/-- The invariant holds, and what is known of each call. -/
def Holds (I : S → Prop) (L : C → S → P → Prop) (w : State C S P) : Prop :=
  I w.shared ∧ ∀ call p, w.phase call = some p → L call w.shared p

variable {code : Code C R S P} {I : S → Prop} {L : C → S → P → Prop} {G : C → S → S → Prop}

theorem holds_init {s : S} (hs : I s) : Holds I L (State.init s : State C S P) :=
  ⟨hs, fun _ _ h => by cases h⟩

variable [DecidableEq C] (h : Respects code I L G)

include h

theorem holds_step {w w' : State C S P} {event : Event C R} (hw : Holds I L w)
    (hstep : step code w event = some w') : Holds I L w' := by
  cases event with
  | enter call request =>
    rw [step] at hstep
    split at hstep
    · obtain ⟨p, hp, rfl⟩ := Option.map_eq_some_iff.mp hstep
      refine ⟨hw.1, fun other q hq => ?_⟩
      by_cases hother : other = call
      · subst hother
        dsimp only at hq
        rw [Function.update_self] at hq
        cases hq
        exact h.enter other w.shared request p hw.1 hp
      · dsimp only at hq
        rw [Function.update_of_ne hother] at hq
        exact hw.2 other q hq
    · cases hstep
  | next call =>
    rw [step] at hstep
    split at hstep
    · cases hstep
    · rename_i p hp
      obtain ⟨⟨s', p'⟩, hnext, rfl⟩ := Option.map_eq_some_iff.mp hstep
      obtain ⟨hinvariant, hknown, hguarantee⟩ :=
        h.next call w.shared p s' p' hw.1 (hw.2 call p hp) hnext
      refine ⟨hinvariant, fun other q hq => ?_⟩
      dsimp only at hq
      by_cases hother : other = call
      · subst hother
        rw [Function.update_self] at hq
        cases hq
        exact hknown
      · rw [Function.update_of_ne hother] at hq
        exact h.stable call other w.shared s' q hother hw.1 hguarantee (hw.2 other q hq)

/-- The invariant and what is known of each call hold after every run. -/
theorem holds_run {w w' : State C S P} {events : List (Event C R)} (hw : Holds I L w)
    (hrun : Transition.run (step code) w events = some w') : Holds I L w' :=
  Transition.run_invariant_all (fun _ _ _ hw hstep => holds_step h hw hstep) hw hrun

end Interference

end NgLog
