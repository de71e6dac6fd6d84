import Mathlib.Data.Nat.Notation
import NgLog.Support.Transition

/-!
# Calls that share an atomic variable

Any number of threads call code that ends in one atomic step on a shared variable. Either the step
always takes effect, or it is a compare-exchange in a loop: the code reads the variable, computes
what to replace the value with, or that there is nothing to do, and exchanges the value if it is
still the one that was read. The exchange of a loop may also fail for no reason. Before that the
code may take atomic steps on a second variable.

Whatever the order of the steps, each call decides in the step in which it exchanges the value, or
reads the one that leaves nothing to do. It then decides as it would have done alone, with the value
that the variable has at this point.

## Main definitions

* `Attempt`, `Code` — what a call does
* `step` — one atomic step of one thread
* `Decides` — a property of the values and the decisions that each decision keeps
* `Numbered` — a property of each decision and its position in the order

## Main results

* `run_decides` — such a property holds after every run, and no computation fails
-/

namespace NgLog

namespace CompareExchange

variable {T A U V R : Type*}

/-- What code does with the value that it has read. -/
inductive Attempt (V R : Type*)
  | exchange (next : V) (result : R)
  | give (result : R)

/-- The value and the result after an attempt that takes effect. -/
def Attempt.commit (value : V) : Attempt V R → V × R
  | .exchange next result => (next, result)
  | .give result => (value, result)

/-- The code of a call: one step, or a loop whose computation may fail, or a step on the second
variable and what depends on the value before it. -/
inductive Code (U V R : Type*)
  | once (apply : V → V × R)
  | retry (attempt : V → Option (Attempt V R))
  | first (advance : U → U) (rest : U → Code U V R)

/-- Where a call is. -/
inductive Running (A U V R : Type*)
  | at (call : A) (code : Code U V R)
  | trying (call : A) (attempt : V → Option (Attempt V R)) (expected next : V) (result : R)

/-- The state of all threads. The calls that have decided are in order. -/
structure State (T A U V R : Type*) where
  counter : U
  value : V
  threads : T → Option (Running A U V R)
  decided : List (A × R)
  failed : Bool

/-- Before the first call. -/
def init (counter : U) (value : V) : State T A U V R := ⟨counter, value, fun _ => none, [], false⟩

/-- What happens next: a thread starts a call, or takes a step of the one it is in. A step that
exchanges the value may fail. -/
inductive Event (T A : Type*)
  | call (thread : T) (call : A)
  | step (thread : T) (fails : Bool)

section Step

variable [DecidableEq T] [DecidableEq V]

/-- A thread goes on, or waits for its next call. -/
def State.setThread (s : State T A U V R) (thread : T) (running : Option (Running A U V R)) :
    State T A U V R :=
  { s with threads := Function.update s.threads thread running }

/-- A call ends with a decision. -/
def State.decide (s : State T A U V R) (thread : T) (call : A) (outcome : V × R) :
    State T A U V R :=
  { s with
    value := outcome.1
    threads := Function.update s.threads thread none
    decided := s.decided ++ [(call, outcome.2)] }

/-- The loop has read the value. -/
def State.observe (s : State T A U V R) (thread : T) (call : A)
    (attempt : V → Option (Attempt V R)) : State T A U V R :=
  match attempt s.value with
  | none => { s with failed := true }
  | some (.give result) => s.decide thread call (s.value, result)
  | some (.exchange next result) =>
    s.setThread thread (some (.trying call attempt s.value next result))

/-- One step of the system. -/
def step (code : A → Code U V R) (s : State T A U V R) : Event T A → Option (State T A U V R)
  | .call thread call =>
    match s.threads thread with
    | none => some (s.setThread thread (some (.at call (code call))))
    | some _ => none
  | .step thread fails =>
    match s.threads thread with
    | none => none
    | some (.at call (.once apply)) => some (s.decide thread call (apply s.value))
    | some (.at call (.retry attempt)) => some (s.observe thread call attempt)
    | some (.at call (.first advance rest)) =>
      some ({ s with counter := advance s.counter }.setThread thread
        (some (.at call (rest s.counter))))
    | some (.trying call attempt expected next result) =>
      if fails then some (s.observe thread call attempt)
      else if s.value = expected then some (s.decide thread call (next, result))
      else none

end Step

/-! ### Properties that decisions keep -/

/-- From values and decisions with the property, a call that decides keeps it. -/
def Decides (I : V → List (A × R) → Prop) (call : A) : Code U V R → Prop
  | .once apply => ∀ value decided, I value decided →
      I (apply value).1 (decided ++ [(call, (apply value).2)])
  | .retry attempt => ∀ value decided, I value decided → ∃ outcome, attempt value = some outcome ∧
      I (outcome.commit value).1 (decided ++ [(call, (outcome.commit value).2)])
  | .first _ rest => ∀ counter, Decides I call (rest counter)

/-- A property of each decision and of the number of decisions before it. -/
def Numbered (P : ℕ → R → Prop) (decided : List (A × R)) : Prop :=
  ∀ k call result, decided[k]? = some (call, result) → P k result

theorem numbered_nil (P : ℕ → R → Prop) : Numbered P ([] : List (A × R)) :=
  fun _ _ _ hnone => absurd hnone.symm (Option.some_ne_none _)

theorem Numbered.concat {P : ℕ → R → Prop} {decided : List (A × R)} (h : Numbered P decided)
    {result : R} (hresult : P decided.length result) (call : A) :
    Numbered P (decided ++ [(call, result)]) := by
  intro k call' result' hk
  by_cases hlt : k < decided.length
  · rw [List.getElem?_append_left hlt] at hk
    exact h k call' result' hk
  · obtain ⟨i, rfl⟩ := Nat.exists_eq_add_of_le (Nat.le_of_not_lt hlt)
    rw [List.getElem?_append_right (Nat.le_add_right ..), Nat.add_sub_cancel_left] at hk
    cases i with
    | zero =>
      obtain ⟨-, rfl⟩ := Prod.mk.inj (Option.some.inj hk)
      exact hresult
    | succ i => exact absurd hk (by simp)

/-- Where a call may be: an exchange that is tried follows from the value that was read. -/
def Running.Ok (I : V → List (A × R) → Prop) : Running A U V R → Prop
  | .at call code => Decides I call code
  | .trying call attempt expected next result =>
    Decides (U := U) I call (.retry attempt) ∧ attempt expected = some (.exchange next result)

/-- What holds in every state. -/
structure Invariant (I : V → List (A × R) → Prop) (s : State T A U V R) : Prop where
  decided : I s.value s.decided
  running : ∀ thread running, s.threads thread = some running → running.Ok I
  failed : s.failed = false

section Run

variable {I : V → List (A × R) → Prop} {s s' : State T A U V R}

theorem invariant_init {value : V} (h : I value []) (counter : U) :
    Invariant I (init counter value : State T A U V R) where
  decided := h
  running _ _ hnone := absurd hnone.symm (Option.some_ne_none _)
  failed := rfl

variable [DecidableEq T]

theorem Invariant.setThread (h : Invariant I s) {running : Option (Running A U V R)}
    (hrunning : ∀ r, running = some r → r.Ok I) (thread : T) :
    Invariant I (s.setThread thread running) where
  decided := h.decided
  running other r hr := by
    change Function.update s.threads thread running other = some r at hr
    by_cases heq : other = thread
    · rw [heq, Function.update_self] at hr
      exact hrunning r hr
    · rw [Function.update_of_ne heq] at hr
      exact h.running other r hr
  failed := h.failed

theorem Invariant.decide (h : Invariant I s) {call : A} {outcome : V × R}
    (houtcome : I outcome.1 (s.decided ++ [(call, outcome.2)])) (thread : T) :
    Invariant I (s.decide thread call outcome) where
  decided := houtcome
  running other r hr := by
    change Function.update s.threads thread none other = some r at hr
    by_cases heq : other = thread
    · rw [heq, Function.update_self] at hr
      exact absurd hr.symm (Option.some_ne_none _)
    · rw [Function.update_of_ne heq] at hr
      exact h.running other r hr
  failed := h.failed

theorem Invariant.observe (h : Invariant I s) {call : A} {attempt : V → Option (Attempt V R)}
    (hattempt : Decides (U := U) I call (.retry attempt)) (thread : T) :
    Invariant I (s.observe thread call attempt) := by
  obtain ⟨outcome, hsome, houtcome⟩ := hattempt s.value s.decided h.decided
  rw [State.observe, hsome]
  cases outcome with
  | give result => exact h.decide houtcome thread
  | exchange next result =>
    refine h.setThread (fun r hr => ?_) thread
    rw [← Option.some.inj hr]
    exact ⟨hattempt, hsome⟩

/-- One step. The exchange takes effect only if the value is the one that was read. -/
theorem invariant_step [DecidableEq V] {code : A → Code U V R} {event : Event T A}
    (hcode : ∀ thread call, event = .call thread call → Decides I call (code call))
    (h : Invariant I s) (hstep : step code s event = some s') : Invariant I s' := by
  cases event with
  | call thread call =>
    rw [step] at hstep
    split at hstep
    · rw [← Option.some.inj hstep]
      refine h.setThread (fun r hr => ?_) thread
      rw [← Option.some.inj hr]
      exact hcode thread call rfl
    · cases hstep
  | step thread fails =>
    rw [step] at hstep
    cases hthread : s.threads thread with
    | none => simp [hthread] at hstep
    | some running =>
      have hok := h.running thread running hthread
      rw [hthread] at hstep
      rcases running with ⟨call, apply | attempt | ⟨advance, rest⟩⟩ |
        ⟨call, attempt, expected, next, result⟩
      · rw [← Option.some.inj hstep]
        exact h.decide (hok s.value s.decided h.decided) thread
      · rw [← Option.some.inj hstep]
        exact h.observe hok thread
      · rw [← Option.some.inj hstep]
        have hadvanced : Invariant I { s with counter := advance s.counter } :=
          ⟨h.decided, h.running, h.failed⟩
        refine hadvanced.setThread (fun r hr => ?_) thread
        rw [← Option.some.inj hr]
        exact hok s.counter
      · dsimp only at hstep
        split_ifs at hstep with hfails hexpected
        · rw [← Option.some.inj hstep]
          exact h.observe hok.1 thread
        · rw [← Option.some.inj hstep]
          obtain ⟨outcome, hsome, houtcome⟩ := hok.1 s.value s.decided h.decided
          rw [hexpected, hok.2] at hsome
          rw [← Option.some.inj hsome] at houtcome
          exact h.decide houtcome thread

/-- What every decision keeps holds after every run of calls that keep it. -/
theorem run_decides [DecidableEq V] {code : A → Code U V R} {P : A → Prop} {value : V}
    (hinit : I value []) (hcode : ∀ call, P call → Decides I call (code call)) {counter : U}
    {events : List (Event T A)} (hevents : ∀ thread call, .call thread call ∈ events → P call)
    (h : Transition.run (step code) (init counter value) events = some s) :
    I s.value s.decided ∧ s.failed = false := by
  have hinvariant := Transition.run_invariant (I := Invariant I)
    (P := fun event => ∀ thread call, event = .call thread call → P call)
    (fun s event s' hP hs hstep =>
      invariant_step (fun thread call hevent => hcode call (hP thread call hevent)) hs hstep)
    (fun event hevent thread call heq => hevents thread call (by rw [← heq]; exact hevent))
    (invariant_init hinit counter) h
  exact ⟨hinvariant.decided, hinvariant.failed⟩

end Run

end CompareExchange

end NgLog
