import NgLog.Sinks.Dispatch
import Mathlib.Algebra.Order.BigOperators.Group.Finset

/-!
# The removal of a sink

In every interleaving the counts are what they stand for: `sink_call_counts_` counts the calls in
progress, and `sink_waiting_call_counts_` those of threads that wait inside `RemoveLogSink`. All
steps are accounted for by one lemma, `step_balanced`: what a step adds to a count it adds to the
stack of its thread.

From this follows what makes it safe to destroy a sink: when `RemoveLogSink` returns on a thread
that is not inside a call of the sink, no call of it is in progress, and none begins before the sink
is added again.

## Main definitions

* `calls`, `waitingCalls` — what a thread's stack contributes to the counts
* `Counted` — the invariant

## Main results

* `step_balanced`, `counted_step` — every step keeps the accounts
* `removeLogSink_quiesces` — no call after the removal
* `sink_removal_protocol` — the two together, for every run
-/

namespace NgLog

namespace Sinks

open Transition (run)

variable {Thread Sink : Type} [DecidableEq Sink]

/-! ### What a stack contributes -/

/-- The number of calls of the sink that a thread is in. -/
def calls (sink : Sink) (stack : List (Frame Sink)) : ℕ := stack.count (.call sink)

/-- The number of them that it has declared as waiting. -/
def waitingCalls (sink : Sink) : List (Frame Sink) → ℕ
  | .remove sink' (.others own) :: _ => if sink' = sink then own else 0
  | _ => 0

/-- The frame is one of `RemoveLogSink`. -/
def Frame.isRemove : Frame Sink → Bool
  | .remove _ _ => true
  | _ => false

/-- `RemoveLogSink` calls no code of a sink, so it can only be the innermost function; and a thread
that waits in it has declared its own calls of the sink. -/
structure WellFormed (stack : List (Frame Sink)) : Prop where
  tail : ∀ f ∈ stack.tail, f.isRemove = false
  own : ∀ sink own rest, stack = .remove sink (.others own) :: rest →
    own = calls sink rest ∧ own ≠ 0

@[simp] theorem calls_nil (sink : Sink) : calls sink [] = 0 := rfl

@[simp] theorem calls_call (sink sink' : Sink) (rest : List (Frame Sink)) :
    calls sink (.call sink' :: rest) = calls sink rest + if sink' = sink then 1 else 0 := by
  simp only [calls, List.count_cons, beq_iff_eq, Frame.call.injEq]

@[simp] theorem calls_loading (sink : Sink) (rest : List (Frame Sink)) :
    calls sink (.loading :: rest) = calls sink rest := by
  simp [calls]

@[simp] theorem calls_dispatch (sink : Sink) (sinks : List Sink) (rest : List (Frame Sink)) :
    calls sink (.dispatch sinks :: rest) = calls sink rest := by
  simp [calls]

@[simp] theorem calls_remove (sink sink' : Sink) (wait : Wait) (rest : List (Frame Sink)) :
    calls sink (.remove sink' wait :: rest) = calls sink rest := by
  simp [calls]

theorem wellFormed_of_tail {f : Frame Sink} {rest : List (Frame Sink)}
    (h : WellFormed (f :: rest)) : ∀ g ∈ rest, g.isRemove = false := h.tail

/-- A stack without `RemoveLogSink` is well formed. -/
theorem wellFormed_of_noRemove {stack : List (Frame Sink)}
    (h : ∀ f ∈ stack, f.isRemove = false) : WellFormed stack := by
  refine ⟨fun f hf => h f (List.mem_of_mem_tail hf), fun sink own rest hstack => ?_⟩
  have := h (.remove sink (.others own)) (hstack ▸ List.mem_cons_self ..)
  cases this

theorem waitingCalls_of_noRemove {stack : List (Frame Sink)} (sink : Sink)
    (h : ∀ f ∈ stack, f.isRemove = false) : waitingCalls sink stack = 0 := by
  match stack, h with
  | [], _ => rfl
  | .loading :: _, _ => rfl
  | .dispatch _ :: _, _ => rfl
  | .call _ :: _, _ => rfl
  | .remove _ _ :: _, h => cases h _ (List.mem_cons_self ..)

/-- A thread that may call the library is not in `RemoveLogSink`. -/
theorem noRemove_of_mayCall {stack : List (Frame Sink)} (hmay : mayCall stack = true)
    (h : WellFormed stack) : ∀ f ∈ stack, f.isRemove = false := by
  match stack, hmay with
  | [], _ => exact nofun
  | .call sink :: rest, _ =>
    intro f hf
    rcases List.mem_cons.mp hf with rfl | hf
    · rfl
    · exact h.tail f hf

omit [DecidableEq Sink] in
theorem noRemove_cons {f : Frame Sink} {rest : List (Frame Sink)} (hf : f.isRemove = false)
    (h : ∀ g ∈ rest, g.isRemove = false) : ∀ g ∈ f :: rest, g.isRemove = false :=
  List.forall_mem_cons.mpr ⟨hf, h⟩

theorem wellFormed_remove {sink : Sink} {rest : List (Frame Sink)} {wait : Wait}
    (hrest : ∀ f ∈ rest, f.isRemove = false)
    (hown : ∀ own, wait = .others own → own = calls sink rest ∧ own ≠ 0) :
    WellFormed (.remove sink wait :: rest) := by
  refine ⟨hrest, fun sink' own rest' h => ?_⟩
  obtain ⟨⟨rfl, rfl⟩, rfl⟩ := by simpa using h
  exact hown own rfl

/-! ### The steps -/

section Inversion

variable {Thread : Type} [DecidableEq Thread]

/-- What `step` can do, one constructor for each way through a critical section. -/
inductive Step (s : State Thread Sink) (t : Thread) : Action Sink → State Thread Sink → Prop
  | add {sink} (hmay : mayCall (s.stack t) = true) :
      Step s t (.addLogSink sink) (s.addLogSink sink)
  | remove {sink} (hmay : mayCall (s.stack t) = true) :
      Step s t (.removeLogSink sink)
        ((s.removeLogSink sink).setStack t (.remove sink .entered :: s.stack t))
  | waitAll {sink rest} (hstack : s.stack t = .remove sink .entered :: rest)
      (hzero : s.sinkCallCountsForThread t sink = 0) :
      Step s t .waitForSinkCalls (s.setStack t (.remove sink .all :: rest))
  | waitOthers {sink rest} (hstack : s.stack t = .remove sink .entered :: rest)
      (hne : s.sinkCallCountsForThread t sink ≠ 0) :
      Step s t .waitForSinkCalls ((s.setWaiting sink (s.sinkWaitingCallCounts sink +
        s.sinkCallCountsForThread t sink)).setStack t
          (.remove sink (.others (s.sinkCallCountsForThread t sink)) :: rest))
  | allEnded {sink rest} (hstack : s.stack t = .remove sink .all :: rest)
      (hzero : s.sinkCallCounts sink = 0) : Step s t .sinkCallsEnded (s.setStack t rest)
  | othersEnded {sink own rest} (hstack : s.stack t = .remove sink (.others own) :: rest)
      (heq : s.sinkCallCounts sink = s.sinkWaitingCallCounts sink) :
      Step s t .sinkCallsEnded
        ((s.setWaiting sink (s.sinkWaitingCallCounts sink - own)).setStack t rest)
  | logNothing (hmay : mayCall (s.stack t) = true) : Step s t .logToSinks s
  | log (hmay : mayCall (s.stack t) = true) :
      Step s t .logToSinks (s.setStack t (.loading :: s.stack t))
  | snapshot {sinks rest} (hstack : s.stack t = .loading :: rest) (hsinks : s.sinks = some sinks) :
      Step s t .getSinks (s.setStack t (.dispatch sinks.reverse :: rest))
  | noSnapshot {rest} (hstack : s.stack t = .loading :: rest) :
      Step s t .getSinks (s.setStack t rest)
  | called {sink sinks rest} (hstack : s.stack t = .dispatch (sink :: sinks) :: rest)
      (hregistered : s.registered sink = true) :
      Step s t .beginSinkCall
        ((s.countCall t sink).setStack t (.call sink :: .dispatch sinks :: rest))
  | skipped {sink sinks rest} (hstack : s.stack t = .dispatch (sink :: sinks) :: rest) :
      Step s t .beginSinkCall (s.setStack t (.dispatch sinks :: rest))
  | ended {sink rest} (hstack : s.stack t = .call sink :: rest)
      (hcheck : 0 < s.sinkCallCounts sink ∧ 0 < s.sinkCallCountsForThread t sink) :
      Step s t .endSinkCall ((s.uncountCall t sink).setStack t rest)
  | visited {rest} (hstack : s.stack t = .dispatch [] :: rest) :
      Step s t .sinksVisited (s.setStack t rest)

theorem step_eq_some {s s' : State Thread Sink} {t : Thread} {a : Action Sink}
    (h : step s (t, a) = some s') : Step s t a s' := by
  cases a with
  | addLogSink sink =>
    simp only [step, Option.ite_none_right_eq_some, Option.some.injEq] at h
    exact h.2 ▸ .add h.1
  | removeLogSink sink =>
    simp only [step, Option.ite_none_right_eq_some, Option.some.injEq] at h
    exact h.2 ▸ .remove h.1
  | waitForSinkCalls =>
    simp only [step] at h
    split at h
    · rename_i hstack
      split at h <;> cases h
      · exact .waitAll hstack ‹_›
      · exact .waitOthers hstack ‹_›
    · cases h
  | sinkCallsEnded =>
    simp only [step] at h
    split at h
    · rename_i hstack
      simp only [Option.ite_none_right_eq_some, Option.some.injEq] at h
      exact h.2 ▸ .allEnded hstack h.1
    · rename_i hstack
      simp only [Option.ite_none_right_eq_some, Option.some.injEq] at h
      exact h.2 ▸ .othersEnded hstack h.1
    · cases h
  | logToSinks =>
    simp only [step] at h
    split at h
    · split at h <;> cases h
      · exact .log ‹_›
      · exact .logNothing ‹_›
    · cases h
  | getSinks =>
    simp only [step] at h
    split at h
    · rename_i hstack
      split at h <;> cases h
      · exact .snapshot hstack ‹_›
      · exact .noSnapshot hstack
    · cases h
  | beginSinkCall =>
    simp only [step] at h
    split at h
    · rename_i hstack
      split at h <;> cases h
      · exact .called hstack ‹_›
      · exact .skipped hstack
    · cases h
  | endSinkCall =>
    simp only [step] at h
    split at h
    · rename_i hstack
      simp only [Option.ite_none_right_eq_some, Option.some.injEq] at h
      exact h.2 ▸ .ended hstack h.1
    · cases h
  | sinksVisited =>
    simp only [step] at h
    split at h
    · rename_i hstack
      cases h
      exact .visited hstack
    · cases h

end Inversion

/-! ### The invariant -/

variable [DecidableEq Thread]

/-- What a step of thread `t` does to the counts it does to the stack of `t`. -/
structure Balanced (t : Thread) (s s' : State Thread Sink) : Prop where
  wellFormed : WellFormed (s'.stack t)
  stack : ∀ u, u ≠ t → s'.stack u = s.stack u
  forThread : ∀ u, u ≠ t → s'.sinkCallCountsForThread u = s.sinkCallCountsForThread u
  own : ∀ sink, s'.sinkCallCountsForThread t sink + Sinks.calls sink (s.stack t) =
    s.sinkCallCountsForThread t sink + Sinks.calls sink (s'.stack t)
  calls : ∀ sink, s'.sinkCallCounts sink + Sinks.calls sink (s.stack t) =
    s.sinkCallCounts sink + Sinks.calls sink (s'.stack t)
  waiting : ∀ sink, s'.sinkWaitingCallCounts sink + waitingCalls sink (s.stack t) =
    s.sinkWaitingCallCounts sink + waitingCalls sink (s'.stack t)

section Stack

variable {s s' : State Thread Sink} {t : Thread}

omit [DecidableEq Sink] in
@[simp] theorem setStack_self (s : State Thread Sink) (t : Thread) (stack : List (Frame Sink)) :
    (s.setStack t stack).stack t = stack := Function.update_self ..

omit [DecidableEq Sink] in
theorem setStack_of_ne {u : Thread} (s : State Thread Sink) (stack : List (Frame Sink))
    (h : u ≠ t) : (s.setStack t stack).stack u = s.stack u := Function.update_of_ne h ..

/-- A step that changes no count, and no contribution of its thread's stack. -/
theorem balanced_quiet {s₁ : State Thread Sink} {stack : List (Frame Sink)}
    (hstack : s₁.stack = s.stack) (hcounts : s₁.sinkCallCounts = s.sinkCallCounts)
    (hforThread : s₁.sinkCallCountsForThread = s.sinkCallCountsForThread)
    (hwaiting : s₁.sinkWaitingCallCounts = s.sinkWaitingCallCounts) (hwf : WellFormed stack)
    (hcalls : ∀ sink, calls sink stack = calls sink (s.stack t))
    (hwait : ∀ sink, waitingCalls sink stack = waitingCalls sink (s.stack t)) :
    Balanced t s (s₁.setStack t stack) := by
  refine ⟨?_, fun u hu => ?_, fun u _ => congrFun hforThread u, fun sink => ?_, fun sink => ?_,
    fun sink => ?_⟩
  · rw [setStack_self]
    exact hwf
  · rw [setStack_of_ne s₁ stack hu, hstack]
  · rw [setStack_self, hcalls]
    exact congrArg (· + _) (congrFun (congrFun hforThread t) sink)
  · rw [setStack_self, hcalls]
    exact congrArg (· + _) (congrFun hcounts sink)
  · rw [setStack_self, hwait]
    exact congrArg (· + _) (congrFun hwaiting sink)

omit [DecidableEq Thread] in
theorem removeLogSink_stack (s : State Thread Sink) (sink : Sink) :
    (s.removeLogSink sink).stack = s.stack ∧
      (s.removeLogSink sink).sinkCallCounts = s.sinkCallCounts ∧
      (s.removeLogSink sink).sinkCallCountsForThread = s.sinkCallCountsForThread ∧
      (s.removeLogSink sink).sinkWaitingCallCounts = s.sinkWaitingCallCounts := by
  rw [State.removeLogSink]
  split <;> exact ⟨rfl, rfl, rfl, rfl⟩

omit [DecidableEq Thread] in
theorem registered_addLogSink {sink sink' : Sink} (h : sink' ≠ sink) :
    (s.addLogSink sink').registered sink = s.registered sink := by
  simp only [State.registered, State.addLogSink, Option.getD_some, List.contains_eq_mem,
    List.mem_append, List.mem_singleton, Ne.symm h, or_false]

omit [DecidableEq Thread] in
theorem registered_removeLogSink (s : State Thread Sink) (sink : Sink) :
    (s.removeLogSink sink).registered sink = false := by
  rcases hsinks : s.sinks with _ | sinks <;>
    simp [State.registered, State.removeLogSink, hsinks]

omit [DecidableEq Thread] in
theorem registered_removeLogSink_of_false {sink : Sink} (sink' : Sink)
    (h : s.registered sink = false) : (s.removeLogSink sink').registered sink = false := by
  rcases hsinks : s.sinks with _ | sinks
  · simp [State.registered, State.removeLogSink, hsinks]
  · simp only [State.registered, hsinks, Option.getD_some, List.contains_eq_mem,
      decide_eq_false_iff_not] at h
    simp [State.registered, State.removeLogSink, hsinks, h]

/-- Only `AddLogSink` registers a sink. -/
theorem registered_step {sink : Sink} {a : Action Sink} (ha : a ≠ .addLogSink sink)
    (h : Step s t a s') (hs : s.registered sink = false) : s'.registered sink = false := by
  cases h with
  | @add sink' hmay =>
    rw [registered_addLogSink fun heq => ha (congrArg Action.addLogSink heq)]
    exact hs
  | remove hmay => exact registered_removeLogSink_of_false _ hs
  | _ => exact hs

end Stack

variable [Fintype Thread]

/-- The counts are those of the stacks. -/
structure Counted (s : State Thread Sink) : Prop where
  wellFormed : ∀ t, WellFormed (s.stack t)
  forThread : ∀ t sink, s.sinkCallCountsForThread t sink = calls sink (s.stack t)
  calls : ∀ sink, s.sinkCallCounts sink = ∑ t, Sinks.calls sink (s.stack t)
  waiting : ∀ sink, s.sinkWaitingCallCounts sink = ∑ t, waitingCalls sink (s.stack t)

/-- A sum over the threads changes by what the one thread that changes adds. -/
theorem sum_add_eq {f g : Thread → ℕ} {t : Thread} (h : ∀ u, u ≠ t → g u = f u) :
    ∑ u, g u + f t = ∑ u, f u + g t := by
  have hrest : ∑ u ∈ Finset.univ.erase t, g u = ∑ u ∈ Finset.univ.erase t, f u :=
    Finset.sum_congr rfl fun u hu => h u (Finset.ne_of_mem_erase hu)
  have hg := Finset.add_sum_erase Finset.univ g (Finset.mem_univ t)
  have hf := Finset.add_sum_erase Finset.univ f (Finset.mem_univ t)
  omega

theorem Balanced.counted {t : Thread} {s s' : State Thread Sink} (hs : Counted s)
    (h : Balanced t s s') : Counted s' := by
  refine ⟨fun u => ?_, fun u sink => ?_, fun sink => ?_, fun sink => ?_⟩
  · by_cases hu : u = t
    · exact hu ▸ h.wellFormed
    · exact h.stack u hu ▸ hs.wellFormed u
  · by_cases hu : u = t
    · have := h.own sink
      have := hs.forThread t sink
      subst hu
      omega
    · rw [h.forThread u hu, h.stack u hu]
      exact hs.forThread u sink
  · have hsum := sum_add_eq (f := fun u => Sinks.calls sink (s.stack u))
      (g := fun u => Sinks.calls sink (s'.stack u)) (t := t)
      fun u hu => by rw [h.stack u hu]
    have := h.calls sink
    have := hs.calls sink
    omega
  · have hsum := sum_add_eq (f := fun u => waitingCalls sink (s.stack u))
      (g := fun u => waitingCalls sink (s'.stack u)) (t := t)
      fun u hu => by rw [h.stack u hu]
    have := h.waiting sink
    have := hs.waiting sink
    omega

/-! ### Every step keeps the accounts -/

section Steps

variable {s s' : State Thread Sink} {t : Thread}

theorem balanced_addLogSink (hs : Counted s) (sink : Sink) : Balanced t s (s.addLogSink sink) := by
  have h : Balanced t s ((s.addLogSink sink).setStack t (s.stack t)) :=
    balanced_quiet rfl rfl rfl rfl (hs.wellFormed t) (fun _ => rfl) (fun _ => rfl)
  rwa [State.setStack, show (s.addLogSink sink).stack = s.stack from rfl,
    Function.update_eq_self] at h

theorem balanced_removeLogSink (hs : Counted s) (hmay : mayCall (s.stack t) = true)
    (sink : Sink) :
    Balanced t s ((s.removeLogSink sink).setStack t (.remove sink .entered :: s.stack t)) := by
  have hrest := noRemove_of_mayCall hmay (hs.wellFormed t)
  obtain ⟨h₁, h₂, h₃, h₄⟩ := removeLogSink_stack s sink
  exact balanced_quiet h₁ h₂ h₃ h₄ (wellFormed_remove hrest nofun) (fun _ => calls_remove ..)
    fun sink' => (waitingCalls_of_noRemove sink' hrest).symm

/-- A thread that starts to wait declares the calls that it is in. -/
theorem balanced_waitForSinkCalls (hs : Counted s) {sink : Sink} {rest : List (Frame Sink)}
    (hstack : s.stack t = .remove sink .entered :: rest)
    (hne : s.sinkCallCountsForThread t sink ≠ 0) :
    Balanced t s ((s.setWaiting sink (s.sinkWaitingCallCounts sink +
      s.sinkCallCountsForThread t sink)).setStack t
        (.remove sink (.others (s.sinkCallCountsForThread t sink)) :: rest)) := by
  have hwf := hs.wellFormed t
  rw [hstack] at hwf
  have hown : s.sinkCallCountsForThread t sink = calls sink rest := by
    rw [hs.forThread, hstack, calls_remove]
  refine ⟨?_, fun u hu => setStack_of_ne _ _ hu, fun _ _ => rfl, fun sink' => ?_, fun sink' => ?_,
    fun sink' => ?_⟩
  · rw [setStack_self]
    exact wellFormed_remove hwf.tail fun own h => by cases h; exact ⟨hown, hne⟩
  · rw [setStack_self, hstack, calls_remove, calls_remove]
    rfl
  · rw [setStack_self, hstack, calls_remove, calls_remove]
    rfl
  · rw [setStack_self, hstack]
    by_cases hsink : sink = sink'
    · subst hsink
      simp only [State.setStack, State.setWaiting, Function.update_self, waitingCalls, if_true]
      omega
    · simp only [State.setStack, State.setWaiting, Function.update_of_ne (Ne.symm hsink),
        waitingCalls, if_neg hsink]

omit [DecidableEq Thread] in
/-- What one thread has declared is part of the waiting count. -/
theorem waitingCalls_le (hs : Counted s) (t : Thread) (sink : Sink) :
    waitingCalls sink (s.stack t) ≤ s.sinkWaitingCallCounts sink := by
  rw [hs.waiting]
  exact Finset.single_le_sum (f := fun u => waitingCalls sink (s.stack u))
    (fun _ _ => Nat.zero_le _) (Finset.mem_univ t)

theorem balanced_othersEnded (hs : Counted s) {sink : Sink} {own : ℕ} {rest : List (Frame Sink)}
    (hstack : s.stack t = .remove sink (.others own) :: rest) :
    Balanced t s ((s.setWaiting sink (s.sinkWaitingCallCounts sink - own)).setStack t rest) := by
  have hwf := hs.wellFormed t
  have hle := waitingCalls_le hs t sink
  rw [hstack] at hwf hle
  simp only [waitingCalls, if_true] at hle
  refine ⟨?_, fun u hu => setStack_of_ne _ _ hu, fun _ _ => rfl, fun sink' => ?_, fun sink' => ?_,
    fun sink' => ?_⟩
  · rw [setStack_self]
    exact wellFormed_of_noRemove hwf.tail
  · rw [setStack_self, hstack, calls_remove]
    rfl
  · rw [setStack_self, hstack, calls_remove]
    rfl
  · rw [setStack_self, hstack, waitingCalls_of_noRemove sink' (wellFormed_of_tail hwf)]
    by_cases hsink : sink = sink'
    · subst hsink
      simp only [State.setStack, State.setWaiting, Function.update_self, waitingCalls, if_true]
      omega
    · simp only [State.setStack, State.setWaiting, Function.update_of_ne (Ne.symm hsink),
        waitingCalls, if_neg hsink]

theorem balanced_beginSinkCall (hs : Counted s) {sink : Sink} {sinks : List Sink}
    {rest : List (Frame Sink)} (hstack : s.stack t = .dispatch (sink :: sinks) :: rest) :
    Balanced t s ((s.countCall t sink).setStack t (.call sink :: .dispatch sinks :: rest)) := by
  have hwf := hs.wellFormed t
  rw [hstack] at hwf
  have hnew := noRemove_cons (f := .call sink) rfl
    (noRemove_cons (f := .dispatch sinks) rfl hwf.tail)
  refine ⟨?_, fun u hu => setStack_of_ne _ _ hu, fun u hu => Function.update_of_ne hu ..,
    fun sink' => ?_, fun sink' => ?_, fun sink' => ?_⟩
  · rw [setStack_self]
    exact wellFormed_of_noRemove hnew
  · rw [setStack_self, hstack]
    by_cases hsink : sink = sink'
    · subst hsink
      simp only [State.setStack, State.countCall, Function.update_self, calls_call,
        calls_dispatch, if_true]
      omega
    · simp only [State.setStack, State.countCall, Function.update_self,
        Function.update_of_ne (Ne.symm hsink), calls_call, calls_dispatch, if_neg hsink]
      omega
  · rw [setStack_self, hstack]
    by_cases hsink : sink = sink'
    · subst hsink
      simp only [State.setStack, State.countCall, Function.update_self, calls_call,
        calls_dispatch, if_true]
      omega
    · simp only [State.setStack, State.countCall, Function.update_of_ne (Ne.symm hsink),
        calls_call, calls_dispatch, if_neg hsink]
      omega
  · rw [setStack_self, hstack]
    rfl

theorem balanced_endSinkCall (hs : Counted s) {sink : Sink} {rest : List (Frame Sink)}
    (hstack : s.stack t = .call sink :: rest)
    (hcheck : 0 < s.sinkCallCounts sink ∧ 0 < s.sinkCallCountsForThread t sink) :
    Balanced t s ((s.uncountCall t sink).setStack t rest) := by
  have hwf := hs.wellFormed t
  rw [hstack] at hwf
  refine ⟨?_, fun u hu => setStack_of_ne _ _ hu, fun u hu => Function.update_of_ne hu ..,
    fun sink' => ?_, fun sink' => ?_, fun sink' => ?_⟩
  · rw [setStack_self]
    exact wellFormed_of_noRemove hwf.tail
  · rw [setStack_self, hstack]
    by_cases hsink : sink = sink'
    · subst hsink
      simp only [State.setStack, State.uncountCall, Function.update_self, calls_call, if_true]
      omega
    · simp only [State.setStack, State.uncountCall, Function.update_self,
        Function.update_of_ne (Ne.symm hsink), calls_call, if_neg hsink]
      omega
  · rw [setStack_self, hstack]
    by_cases hsink : sink = sink'
    · subst hsink
      simp only [State.setStack, State.uncountCall, Function.update_self, calls_call, if_true]
      omega
    · simp only [State.setStack, State.uncountCall, Function.update_of_ne (Ne.symm hsink),
        calls_call, if_neg hsink]
      omega
  · rw [setStack_self, hstack, waitingCalls_of_noRemove sink' (wellFormed_of_tail hwf)]
    rfl

/-- Every step is accounted for in its thread's stack. -/
theorem step_balanced (hs : Counted s) {a : Action Sink} (h : Step s t a s') :
    Balanced t s s' := by
  have hwf := hs.wellFormed t
  cases h with
  | add hmay => exact balanced_addLogSink hs _
  | remove hmay => exact balanced_removeLogSink hs hmay _
  | waitAll hstack hzero =>
    rw [hstack] at hwf
    refine balanced_quiet rfl rfl rfl rfl (wellFormed_remove hwf.tail nofun) (fun _ => ?_)
      fun _ => ?_
    · rw [hstack, calls_remove, calls_remove]
    · rw [hstack]
      rfl
  | waitOthers hstack hne => exact balanced_waitForSinkCalls hs hstack hne
  | allEnded hstack hzero =>
    rw [hstack] at hwf
    have hrest := wellFormed_of_tail hwf
    refine balanced_quiet rfl rfl rfl rfl (wellFormed_of_noRemove hrest) (fun _ => ?_)
      fun sink => ?_
    · rw [hstack, calls_remove]
    · rw [hstack, waitingCalls_of_noRemove sink hrest]
      rfl
  | othersEnded hstack heq => exact balanced_othersEnded hs hstack
  | logNothing hmay =>
    have hsame : Balanced t s (s.setStack t (s.stack t)) :=
      balanced_quiet rfl rfl rfl rfl hwf (fun _ => rfl) (fun _ => rfl)
    rwa [State.setStack, Function.update_eq_self] at hsame
  | log hmay =>
    have hrest := noRemove_of_mayCall hmay hwf
    exact balanced_quiet rfl rfl rfl rfl (wellFormed_of_noRemove (noRemove_cons rfl hrest))
      (fun _ => calls_loading ..) fun sink => (waitingCalls_of_noRemove sink hrest).symm
  | snapshot hstack hsinks =>
    rw [hstack] at hwf
    refine balanced_quiet rfl rfl rfl rfl
      (wellFormed_of_noRemove (noRemove_cons rfl (wellFormed_of_tail hwf))) (fun _ => ?_)
      fun _ => ?_
    · rw [hstack, calls_dispatch, calls_loading]
    · rw [hstack]
      rfl
  | noSnapshot hstack =>
    rw [hstack] at hwf
    have hrest := wellFormed_of_tail hwf
    refine balanced_quiet rfl rfl rfl rfl (wellFormed_of_noRemove hrest) (fun _ => ?_)
      fun sink => ?_
    · rw [hstack, calls_loading]
    · rw [hstack, waitingCalls_of_noRemove sink hrest]
      rfl
  | called hstack hregistered => exact balanced_beginSinkCall hs hstack
  | skipped hstack =>
    rw [hstack] at hwf
    refine balanced_quiet rfl rfl rfl rfl
      (wellFormed_of_noRemove (noRemove_cons rfl (wellFormed_of_tail hwf))) (fun _ => ?_)
      fun _ => ?_
    · rw [hstack, calls_dispatch, calls_dispatch]
    · rw [hstack]
      rfl
  | ended hstack hcheck => exact balanced_endSinkCall hs hstack hcheck
  | visited hstack =>
    rw [hstack] at hwf
    have hrest := wellFormed_of_tail hwf
    refine balanced_quiet rfl rfl rfl rfl (wellFormed_of_noRemove hrest) (fun _ => ?_)
      fun sink => ?_
    · rw [hstack, calls_dispatch]
    · rw [hstack, waitingCalls_of_noRemove sink hrest]
      rfl

theorem counted_step {a : Thread × Action Sink} (hs : Counted s) (h : step s a = some s') :
    Counted s' := (step_balanced hs (step_eq_some h)).counted hs

end Steps

omit [DecidableEq Thread] in
theorem counted_init : Counted (State.init : State Thread Sink) := by
  refine ⟨fun _ => wellFormed_of_noRemove nofun, fun _ _ => rfl, fun _ => ?_, fun _ => ?_⟩
  · exact (Finset.sum_const_zero).symm
  · exact (Finset.sum_const_zero).symm

/-- The counts are those of the stacks in every reachable state. -/
theorem counted_run {as : List (Thread × Action Sink)} {s : State Thread Sink}
    (h : run step State.init as = some s) : Counted s :=
  Transition.run_invariant_all (fun _ _ _ => counted_step) counted_init h

/-! ### After a removal -/

section Removal

variable {s s' : State Thread Sink} {t : Thread}

omit [DecidableEq Thread] in
theorem waitingCalls_le_calls {stack : List (Frame Sink)} (h : WellFormed stack) (sink : Sink) :
    waitingCalls sink stack ≤ calls sink stack := by
  match stack, h with
  | [], _ => exact Nat.le_refl _
  | .loading :: _, _ => exact Nat.zero_le _
  | .dispatch _ :: _, _ => exact Nat.zero_le _
  | .call _ :: _, _ => exact Nat.zero_le _
  | .remove _ .entered :: _, _ => exact Nat.zero_le _
  | .remove _ .all :: _, _ => exact Nat.zero_le _
  | .remove sink' (.others own) :: rest, h =>
    rw [calls_remove, waitingCalls]
    split
    · rename_i hsink
      exact hsink ▸ Nat.le_of_eq (h.own sink' own rest rfl).1
    · exact Nat.zero_le _

omit [DecidableEq Thread] in
/-- No more calls wait than are in progress. -/
theorem Counted.waiting_le (hs : Counted s) (sink : Sink) :
    s.sinkWaitingCallCounts sink ≤ s.sinkCallCounts sink := by
  rw [hs.waiting, hs.calls]
  exact Finset.sum_le_sum fun t _ => waitingCalls_le_calls (hs.wellFormed t) sink

/-- No thread is in a call of the sink. -/
def Quiet (s : State Thread Sink) (sink : Sink) : Prop := ∀ u, calls sink (s.stack u) = 0

omit [DecidableEq Thread] in
theorem Counted.quiet_iff (hs : Counted s) (sink : Sink) :
    Quiet s sink ↔ s.sinkCallCounts sink = 0 := by
  rw [hs.calls, Finset.sum_eq_zero_iff]
  exact ⟨fun h u _ => h u, fun h u => h u (Finset.mem_univ u)⟩

/-- A thread that is not in a call of the sink waits for all of them, so that none is in progress
when its wait ends. -/
theorem quiet_of_sinkCallsEnded (hs : Counted s) {sink : Sink} {wait : Wait}
    {rest : List (Frame Sink)} (hstack : s.stack t = .remove sink wait :: rest)
    (hout : calls sink (s.stack t) = 0) (h : step s (t, .sinkCallsEnded) = some s') :
    Quiet s' sink := by
  have hstep := step_eq_some h
  refine ((counted_step hs h).quiet_iff sink).mpr ?_
  cases hstep with
  | allEnded hstack' hzero =>
    obtain ⟨⟨rfl, -⟩, -⟩ := by simpa using hstack.symm.trans hstack'
    exact hzero
  | othersEnded hstack' heq =>
    obtain ⟨⟨rfl, -⟩, rfl⟩ := by simpa using hstack.symm.trans hstack'
    -- Such a thread would have declared calls of its own.
    obtain ⟨hown, hne⟩ := (hs.wellFormed t).own _ _ _ hstack'
    rw [hstack, calls_remove] at hout
    exact absurd (hown.trans hout) hne

/-- A sink that is not registered is not called. -/
theorem quiet_step {sink : Sink} {a : Action Sink} (hs : Counted s) (h : Step s t a s')
    (hregistered : s.registered sink = false) (hquiet : Quiet s sink) : Quiet s' sink := by
  intro u
  by_cases hu : u = t
  · subst hu
    have hzero := hquiet u
    cases h with
    | add hmay => exact hzero
    | remove hmay => rwa [setStack_self, calls_remove]
    | waitAll hstack _ => simpa [hstack] using hzero
    | waitOthers hstack _ => simpa [hstack] using hzero
    | allEnded hstack _ => simpa [hstack] using hzero
    | othersEnded hstack _ => simpa [hstack] using hzero
    | logNothing hmay => exact hzero
    | log hmay => rwa [setStack_self, calls_loading]
    | snapshot hstack _ => simpa [hstack] using hzero
    | noSnapshot hstack => simpa [hstack] using hzero
    | @called sink' sinks rest hstack hcalled =>
      have hne : sink' ≠ sink := by
        rintro rfl
        exact absurd (hcalled.symm.trans hregistered) Bool.noConfusion
      simpa [hstack, hne] using hzero
    | skipped hstack => simpa [hstack] using hzero
    | ended hstack _ =>
      rw [hstack, calls_call] at hzero
      rw [setStack_self]
      omega
    | visited hstack => simpa [hstack] using hzero
  · rw [(step_balanced hs h).stack u hu]
    exact hquiet u

/-- Thread `t` is in `RemoveLogSink` of the sink, or has left it. -/
def Removing (t : Thread) (sink : Sink) (s : State Thread Sink) : Prop :=
  (∃ wait rest, s.stack t = .remove sink wait :: rest) ∨
    ∀ f ∈ s.stack t, f.isRemove = false

theorem removing_step {sink : Sink} {u : Thread} {a : Action Sink} (hs : Counted s)
    (ha : ∀ sink', (u, a) ≠ (t, .removeLogSink sink')) (h : Step s u a s')
    (ht : Removing t sink s) : Removing t sink s' := by
  by_cases hu : t = u
  swap
  · rw [Removing, (step_balanced hs h).stack t hu]
    exact ht
  subst hu
  have hwf := hs.wellFormed t
  -- Only the start of the wait keeps a frame of `RemoveLogSink` on the stack.
  have hwait {sink' rest wait} (hstack : s.stack t = .remove sink' .entered :: rest) :
      Removing t sink (s.setStack t (.remove sink' wait :: rest)) := by
    rcases ht with ⟨wait', rest', hstack'⟩ | hno
    · obtain ⟨⟨rfl, -⟩, rfl⟩ := by simpa using hstack.symm.trans hstack'
      exact .inl ⟨wait, rest, setStack_self ..⟩
    · cases hno (.remove sink' .entered) (hstack ▸ List.mem_cons_self ..)
  cases h with
  | add hmay => exact ht
  | remove hmay => exact absurd rfl (ha _)
  | waitAll hstack _ => exact hwait hstack
  | waitOthers hstack _ => exact hwait hstack
  | logNothing hmay => exact ht
  | log hmay =>
    rw [Removing, setStack_self]
    exact .inr (noRemove_cons rfl (noRemove_of_mayCall hmay hwf))
  | allEnded hstack _ | othersEnded hstack _ | noSnapshot hstack | ended hstack _
  | visited hstack =>
    rw [hstack] at hwf
    rw [Removing, setStack_self]
    exact .inr (wellFormed_of_tail hwf)
  | snapshot hstack _ | skipped hstack =>
    rw [hstack] at hwf
    rw [Removing, setStack_self]
    exact .inr (noRemove_cons rfl (wellFormed_of_tail hwf))
  | called hstack _ =>
    rw [hstack] at hwf
    rw [Removing, setStack_self]
    exact .inr (noRemove_cons rfl (noRemove_cons rfl (wellFormed_of_tail hwf)))

/-- The actions contain no `AddLogSink` of the sink. -/
def NotAdded (sink : Sink) (as : List (Thread × Action Sink)) : Prop :=
  ∀ u, (u, .addLogSink sink) ∉ as

omit [Fintype Thread] in
/-- What a run without `AddLogSink` of the sink keeps once the sink is off the registry. -/
theorem registered_run {sink : Sink} {as : List (Thread × Action Sink)}
    (has : NotAdded sink as) (h : run step s as = some s') (hs : s.registered sink = false) :
    s'.registered sink = false :=
  Transition.run_invariant (P := fun a => a.2 ≠ .addLogSink sink)
    (fun _ _ _ ha hreg hstep => registered_step ha (step_eq_some hstep) hreg)
    (fun a ha heq => has a.1 (heq ▸ ha)) hs h

theorem quiet_run {sink : Sink} {as : List (Thread × Action Sink)} (has : NotAdded sink as)
    (hs : Counted s) (h : run step s as = some s') (hregistered : s.registered sink = false)
    (hquiet : Quiet s sink) : Quiet s' sink :=
  (Transition.run_invariant
    (I := fun s => Counted s ∧ s.registered sink = false ∧ Quiet s sink)
    (P := fun a => a.2 ≠ .addLogSink sink)
    (fun _ _ _ ha hinv hstep => ⟨counted_step hinv.1 hstep,
      registered_step ha (step_eq_some hstep) hinv.2.1,
      quiet_step hinv.1 (step_eq_some hstep) hinv.2.1 hinv.2.2⟩)
    (fun a ha heq => has a.1 (heq ▸ ha)) ⟨hs, hregistered, hquiet⟩ h).2.2

/-- When `RemoveLogSink` returns on a thread that is not in a call of the sink, no call of it is in
progress; and unless the sink has been added again since it was taken off the registry, none
begins until it is. -/
theorem removeLogSink_quiesces {sink : Sink} {s₀ s₁ s₂ s₃ : State Thread Sink}
    {mid : List (Thread × Action Sink)} (hs : Counted s₀)
    (hremove : step s₀ (t, .removeLogSink sink) = some s₁) (hmid : run step s₁ mid = some s₂)
    (hlast : ∀ sink', (t, .removeLogSink sink') ∉ mid)
    (hreturn : step s₂ (t, .sinkCallsEnded) = some s₃) (hout : calls sink (s₂.stack t) = 0) :
    Quiet s₃ sink ∧ ∀ post s₄, run step s₃ post = some s₄ → NotAdded sink (mid ++ post) →
      Quiet s₄ sink := by
  have hs₁ := counted_step hs hremove
  have hstart : Removing t sink s₁ ∧ s₁.registered sink = false := by
    cases step_eq_some hremove with
    | remove hmay =>
      exact ⟨.inl ⟨_, _, setStack_self ..⟩, registered_removeLogSink s₀ sink⟩
  have hs₂ : Counted s₂ ∧ Removing t sink s₂ :=
    Transition.run_invariant (I := fun s => Counted s ∧ Removing t sink s)
      (P := fun a => ∀ sink', a ≠ (t, .removeLogSink sink'))
      (fun _ _ _ ha hinv hstep => ⟨counted_step hinv.1 hstep,
        removing_step hinv.1 ha (step_eq_some hstep) hinv.2⟩)
      (by rintro a ha sink' rfl; exact hlast sink' ha) ⟨hs₁, hstart.1⟩ hmid
  have hquiet : Quiet s₃ sink := by
    rcases hs₂.2 with ⟨wait, rest, hstack⟩ | hno
    · exact quiet_of_sinkCallsEnded hs₂.1 hstack hout hreturn
    · cases step_eq_some hreturn with
      | allEnded hstack _ | othersEnded hstack _ =>
        cases hno _ (hstack ▸ List.mem_cons_self ..)
  refine ⟨hquiet, fun post s₄ hpost hadded => ?_⟩
  have hregistered₂ := registered_run (fun u hu => hadded u (List.mem_append_left _ hu)) hmid
    hstart.2
  have hregistered₃ := registered_step (by nofun) (step_eq_some hreturn) hregistered₂
  exact quiet_run (fun u hu => hadded u (List.mem_append_right _ hu))
    (counted_step hs₂.1 hreturn) hpost hregistered₃ hquiet

end Removal

/-- The checks of `EndSinkCall` never fail: a thread in a call of a sink has been counted. -/
theorem endSinkCall_enabled {s : State Thread Sink} (hs : Counted s) {t : Thread} {sink : Sink}
    {rest : List (Frame Sink)} (hstack : s.stack t = .call sink :: rest) :
    ∃ s', step s (t, .endSinkCall) = some s' := by
  have hthread := hs.forThread t sink
  have hall : calls sink (s.stack t) ≤ ∑ u, calls sink (s.stack u) :=
    Finset.single_le_sum (f := fun u => calls sink (s.stack u)) (fun _ _ => Nat.zero_le _)
      (Finset.mem_univ t)
  rw [← hs.calls] at hall
  rw [hstack, calls_call, if_pos rfl] at hthread hall
  have hcheck : 0 < s.sinkCallCounts sink ∧ 0 < s.sinkCallCountsForThread t sink := by omega
  refine ⟨(s.uncountCall t sink).setStack t rest, ?_⟩
  simp only [step, hstack, if_pos hcheck]

/-- The removal protocol, for every run of any number of threads: the counts are those of the calls
in progress, and the return of `RemoveLogSink` on a thread that is not in a call of the sink means
that no call of it is in progress, nor begins before the sink is added again. -/
theorem sink_removal_protocol :
    (∀ (as : List (Thread × Action Sink)) (s : State Thread Sink),
      run step State.init as = some s → ∀ sink,
        s.sinkCallCounts sink = ∑ t, calls sink (s.stack t) ∧
          s.sinkWaitingCallCounts sink ≤ s.sinkCallCounts sink) ∧
    ∀ (t : Thread) (sink : Sink) (pre mid post : List (Thread × Action Sink))
      (s₂ s₃ s₄ : State Thread Sink),
      run step State.init (pre ++ (t, .removeLogSink sink) :: mid) = some s₂ →
      (∀ sink', (t, .removeLogSink sink') ∉ mid) → calls sink (s₂.stack t) = 0 →
      step s₂ (t, .sinkCallsEnded) = some s₃ → run step s₃ post = some s₄ →
        Quiet s₃ sink ∧ (NotAdded sink (mid ++ post) → Quiet s₄ sink) := by
  refine ⟨fun as s h sink => ?_, fun t sink pre mid post s₂ s₃ s₄ h hlast hout hreturn hpost => ?_⟩
  · have hs := counted_run h
    exact ⟨hs.calls sink, hs.waiting_le sink⟩
  · obtain ⟨s₀, hpre, htail⟩ := Transition.run_append_eq_some.mp h
    obtain ⟨s₁, hremove, hmid⟩ := Transition.run_cons_eq_some.mp htail
    obtain ⟨hquiet, hafter⟩ :=
      removeLogSink_quiesces (counted_run hpre) hremove hmid hlast hreturn hout
    exact ⟨hquiet, hafter post s₄ hpost⟩

/-- Thread 0 removes the sink while thread 1 is in a call of it, and returns after that call. -/
theorem sink_removal_protocol_concurrent : ∃ s₂ s₃ s₄ : State (Fin 2) (Fin 1),
    run step State.init ([(0, .addLogSink 0), (1, .logToSinks), (1, .getSinks),
      (1, .beginSinkCall)] ++ (0, .removeLogSink 0) :: [(0, .waitForSinkCalls),
      (1, .endSinkCall)]) = some s₂ ∧ step s₂ (0, .sinkCallsEnded) = some s₃ ∧
    run step s₃ [(1, .sinksVisited), (1, .logToSinks)] = some s₄ ∧ Quiet s₃ 0 ∧ Quiet s₄ 0 := by
  have hrun : (run step (State.init : State (Fin 2) (Fin 1)) ([(0, .addLogSink 0),
      (1, .logToSinks), (1, .getSinks), (1, .beginSinkCall)] ++ (0, .removeLogSink 0) ::
      [(0, .waitForSinkCalls), (1, .endSinkCall)])).any (fun s₂ =>
        calls 0 (s₂.stack 0) == 0 && (step s₂ (0, .sinkCallsEnded)).any fun s₃ =>
          (run step s₃ [(1, .sinksVisited), (1, .logToSinks)]).isSome) = true := by decide
  obtain ⟨s₂, h₂, hp⟩ := (Option.any_eq_true ..).mp hrun
  obtain ⟨hout, hp⟩ := Bool.and_eq_true_iff.mp hp
  obtain ⟨s₃, h₃, hp⟩ := (Option.any_eq_true ..).mp hp
  obtain ⟨s₄, h₄⟩ := Option.isSome_iff_exists.mp hp
  obtain ⟨hquiet₃, hquiet₄⟩ := sink_removal_protocol.2 0 0 _ _ _ s₂ s₃ s₄ h₂ (by decide)
    (beq_iff_eq.mp hout) h₃ h₄
  exact ⟨s₂, s₃, s₄, h₂, h₃, h₄, hquiet₃, hquiet₄ (by unfold NotAdded; decide)⟩

end Sinks

end NgLog
