import NgLog.Support.Transition
import Mathlib.Algebra.BigOperators.Group.Finset.Basic
import Mathlib.Data.Fintype.Basic

/-!
# Log sinks: registration, dispatch and removal

`LogDestination` keeps the registered sinks in an immutable vector that `AddLogSink` and
`RemoveLogSink` replace. Dispatching a message works on a snapshot of that vector, so a sink can be
removed while another thread is about to call it, or is calling it. `BeginSinkCall` counts a call
only while the sink is registered, and `RemoveLogSink` waits in `WaitForSinkCalls` until the counted
calls are over.

The model has one step for each critical section of a thread. A thread is a stack of the library
functions that it is in: a sink's own code runs when the topmost one is a call of that sink, and it
may log, add sinks and remove sinks, itself included. `LogToSinks` and `WaitForSinks` walk a
snapshot in the same way and are both `Frame.dispatch`.

An entry of `sink_call_counts_` that reaches zero is erased and an absent entry reads as zero, so
the three maps are functions to `ℕ`.

## Main definitions

* `Frame`, `State` — the threads, the registry and the call counts
* `step` — one critical section of one thread
-/

namespace NgLog

namespace Sinks

/-- Where a thread is in `RemoveLogSink`. -/
inductive Wait
  /-- The sink is off the registry, `WaitForSinkCalls` has not started. -/
  | entered
  /-- Waiting for all calls to end. -/
  | all
  /-- Waiting for all calls but those of waiting threads, of which `own` are this thread's. -/
  | others (own : ℕ)
  deriving DecidableEq

/-- A library function that a thread is in. -/
inductive Frame (Sink : Type)
  /-- `GetSinks` has seen `sinks_present_` and has not yet taken the lock. -/
  | loading
  /-- The loop over a snapshot, with the sinks it has still to visit. -/
  | dispatch (rest : List Sink)
  /-- The scope of a `SinkCallGuard` whose `BeginSinkCall` succeeded. -/
  | call (sink : Sink)
  /-- `RemoveLogSink`. -/
  | remove (sink : Sink) (wait : Wait)
  deriving DecidableEq

/-- The static members of `LogDestination` that concern sinks, and the threads. -/
structure State (Thread Sink : Type) where
  sinks : Option (List Sink)
  sinksPresent : Bool
  sinkCallCounts : Sink → ℕ
  sinkWaitingCallCounts : Sink → ℕ
  /-- Thread local. -/
  sinkCallCountsForThread : Thread → Sink → ℕ
  /-- The functions that each thread is in, the innermost first. -/
  stack : Thread → List (Frame Sink)

/-- The critical sections. -/
inductive Action (Sink : Type)
  | addLogSink (sink : Sink)
  /-- The part of `RemoveLogSink` before `WaitForSinkCalls`. -/
  | removeLogSink (sink : Sink)
  /-- `WaitForSinkCalls` up to its wait. -/
  | waitForSinkCalls
  /-- The end of that wait, and the return of `RemoveLogSink`. -/
  | sinkCallsEnded
  /-- The start of `LogToSinks`: `sinks_present_` is loaded. -/
  | logToSinks
  /-- The copy of `sinks_` under the lock. -/
  | getSinks
  /-- `BeginSinkCall` for the next sink of the snapshot. -/
  | beginSinkCall
  /-- The end of the sink's functions, and `EndSinkCall`. -/
  | endSinkCall
  /-- The end of the loop. -/
  | sinksVisited
  deriving DecidableEq

variable {Thread Sink : Type} [DecidableEq Thread] [DecidableEq Sink]

/-- A thread that runs code of its own or of a sink, and so may call the library. -/
def mayCall : List (Frame Sink) → Bool
  | [] => true
  | .call _ :: _ => true
  | _ => false

namespace State

/-- Nothing is registered and nothing is running. -/
def init : State Thread Sink :=
  { sinks := none
    sinksPresent := false
    sinkCallCounts := fun _ => 0
    sinkWaitingCallCounts := fun _ => 0
    sinkCallCountsForThread := fun _ _ => 0
    stack := fun _ => [] }

/-- `sinks_` contains the sink. -/
def registered (s : State Thread Sink) (sink : Sink) : Bool := (s.sinks.getD []).contains sink

/-- Replace the stack of thread `t`. -/
def setStack (s : State Thread Sink) (t : Thread) (stack : List (Frame Sink)) :
    State Thread Sink :=
  { s with stack := Function.update s.stack t stack }

/-- `AddLogSink`. -/
def addLogSink (s : State Thread Sink) (destination : Sink) : State Thread Sink :=
  { s with
    sinks := some (s.sinks.getD [] ++ [destination])
    sinksPresent := true }

/-- The registry part of `RemoveLogSink`. -/
def removeLogSink (s : State Thread Sink) (destination : Sink) : State Thread Sink :=
  match s.sinks with
  | some sinks =>
    let updated := sinks.filter (· ≠ destination)
    { s with
      sinks := some updated
      sinksPresent := !updated.isEmpty }
  | none => s

/-- `++sink_call_counts_[sink]; ++sink_call_counts_for_thread[sink];` -/
def countCall (s : State Thread Sink) (t : Thread) (sink : Sink) : State Thread Sink :=
  { s with
    sinkCallCounts := Function.update s.sinkCallCounts sink (s.sinkCallCounts sink + 1)
    sinkCallCountsForThread := Function.update s.sinkCallCountsForThread t
      (Function.update (s.sinkCallCountsForThread t) sink (s.sinkCallCountsForThread t sink + 1)) }

/-- `EndSinkCall`, once its checks have passed. -/
def uncountCall (s : State Thread Sink) (t : Thread) (sink : Sink) : State Thread Sink :=
  { s with
    sinkCallCounts := Function.update s.sinkCallCounts sink (s.sinkCallCounts sink - 1)
    sinkCallCountsForThread := Function.update s.sinkCallCountsForThread t
      (Function.update (s.sinkCallCountsForThread t) sink (s.sinkCallCountsForThread t sink - 1)) }

/-- `sink_waiting_call_counts_[sink] = count`. -/
def setWaiting (s : State Thread Sink) (sink : Sink) (count : ℕ) : State Thread Sink :=
  { s with sinkWaitingCallCounts := Function.update s.sinkWaitingCallCounts sink count }

end State

/-- One critical section of thread `t`. A wait whose predicate is false cannot be left, and a failed
`CHECK` ends the process; both are no step. -/
def step (s : State Thread Sink) : Thread × Action Sink → Option (State Thread Sink)
  | (t, .addLogSink sink) => if mayCall (s.stack t) then some (s.addLogSink sink) else none
  | (t, .removeLogSink sink) =>
    if mayCall (s.stack t) then
      some ((s.removeLogSink sink).setStack t (.remove sink .entered :: s.stack t))
    else none
  | (t, .waitForSinkCalls) =>
    match s.stack t with
    | .remove sink .entered :: rest =>
      let threadCount := s.sinkCallCountsForThread t sink
      if threadCount = 0 then some (s.setStack t (.remove sink .all :: rest))
      else some ((s.setWaiting sink (s.sinkWaitingCallCounts sink + threadCount)).setStack t
        (.remove sink (.others threadCount) :: rest))
    | _ => none
  | (t, .sinkCallsEnded) =>
    match s.stack t with
    | .remove sink .all :: rest =>
      if s.sinkCallCounts sink = 0 then some (s.setStack t rest) else none
    | .remove sink (.others threadCount) :: rest =>
      if s.sinkCallCounts sink = s.sinkWaitingCallCounts sink then
        some ((s.setWaiting sink (s.sinkWaitingCallCounts sink - threadCount)).setStack t rest)
      else none
    | _ => none
  | (t, .logToSinks) =>
    if mayCall (s.stack t) then
      if s.sinksPresent then some (s.setStack t (.loading :: s.stack t)) else some s
    else none
  | (t, .getSinks) =>
    match s.stack t with
    | .loading :: rest =>
      match s.sinks with
      | some sinks => some (s.setStack t (.dispatch sinks.reverse :: rest))
      | none => some (s.setStack t rest)
    | _ => none
  | (t, .beginSinkCall) =>
    match s.stack t with
    | .dispatch (sink :: sinks) :: rest =>
      if s.registered sink then
        some ((s.countCall t sink).setStack t (.call sink :: .dispatch sinks :: rest))
      else some (s.setStack t (.dispatch sinks :: rest))
    | _ => none
  | (t, .endSinkCall) =>
    match s.stack t with
    | .call sink :: rest =>
      if 0 < s.sinkCallCounts sink ∧ 0 < s.sinkCallCountsForThread t sink then
        some ((s.uncountCall t sink).setStack t rest)
      else none
    | _ => none
  | (t, .sinksVisited) =>
    match s.stack t with
    | .dispatch [] :: rest => some (s.setStack t rest)
    | _ => none

end Sinks

end NgLog
