import Mathlib.Logic.Function.Basic
import NgLog.Support.Transition

/-!
# The logging thread

Threads pass their messages to a queue, from which one thread takes and sends them. A thread waits
while the queue is full. `Stop` is called when the program exits: it waits until the queue is empty,
and from then on each thread sends its own messages. The logging thread itself never queues a
message, since only it would take it.

This is the build for POSIX, without a fork. A step is a critical section of `mutex_` or what a
thread does between two of them; a wait on a condition variable is a step that can only be made when
its condition holds. The logging thread is known by its identifier before it is started.

## Ghost state

Each message names the thread that pushes it and has a number. `pushed`, `queued` and `sent` list
messages in the order in which `Push` was called with them, and they were queued and sent.

## Main definitions

* `State` — the class, and where each thread is in it
* `Action`, `step` — the steps
-/

namespace NgLog

namespace Async

/-- A pending message, with the thread that pushes it. -/
structure PendingMessage (Thread : Type) where
  thread : Thread
  number : ℕ
  size : ℕ

/-- What the loop of `Run` is about to do. -/
inductive Worker (Thread : Type)
  | take
  | send (message : PendingMessage Thread)
  | finish

/-- Where a thread is in the functions that it calls. -/
inductive Activity (Thread : Type)
  | none
  /-- In `Push`, before or in `Enqueue`. -/
  | pushing (message : PendingMessage Thread)
  /-- In `Push`, after `Enqueue` has returned false. -/
  | sending (message : PendingMessage Thread)
  | waiting
  /-- In `Stop`, before it has stopped the queue. -/
  | stopping
  /-- In `Stop`, with the messages that remain to be sent. -/
  | draining (remaining : List (PendingMessage Thread))

variable {Thread : Type}

/-- The message that the logging thread has taken and not sent. -/
def Worker.held : Worker Thread → List (PendingMessage Thread)
  | .send message => [message]
  | _ => []

/-- The message that the thread has in `Push`. -/
def Activity.held : Activity Thread → List (PendingMessage Thread)
  | .pushing message => [message]
  | .sending message => [message]
  | _ => []

def kMaxPendingBytes : ℕ := 8 * (1024 * 1024)

/-- `LogThread`, and where each thread is. -/
structure State (Thread : Type) where
  queue : List (PendingMessage Thread)
  pendingBytes : ℕ
  sending : Bool
  stopped : Bool
  /-- `thread_` is not null. -/
  started : Bool
  worker : Worker Thread
  activity : Thread → Activity Thread
  pushed : List (PendingMessage Thread)
  queued : List (PendingMessage Thread)
  sent : List (PendingMessage Thread)

/-- The state before the first call. -/
def State.init : State Thread :=
  { queue := []
    pendingBytes := 0
    sending := false
    stopped := false
    started := false
    worker := .take
    activity := fun _ => .none
    pushed := []
    queued := []
    sent := [] }

/-- The steps. -/
inductive Action (Thread : Type)
  /-- A thread calls `Push` with a message of the size. -/
  | push (t : Thread) (size : ℕ)
  | enqueue (t : Thread)
  /-- `Send`, in `Push`. -/
  | sendDirectly (t : Thread)
  | take
  /-- `Send`, in `Run`. -/
  | send
  | finish
  | wait (t : Thread)
  | waitReturns (t : Thread)
  | stop (t : Thread)
  /-- The critical section of `Stop`. -/
  | drain (t : Thread)
  /-- A round of the loop of `Stop`, or its end. -/
  | sendRemaining (t : Thread)

variable [DecidableEq Thread]

namespace State

/-- The thread goes on to another activity. -/
def setActivity (s : State Thread) (t : Thread) (activity : Activity Thread) : State Thread :=
  { s with activity := Function.update s.activity t activity }

/-- `OnLoggingThread`, on the thread. -/
def onLoggingThread (s : State Thread) (logging t : Thread) : Bool := s.started && t = logging

/-- The thread can call a function: it is in none, and it exists. -/
def mayCall (s : State Thread) (logging t : Thread) : Bool :=
  (match s.activity t with
    | .none => true
    | _ => false) && (t ≠ logging || s.started)

/-- The thread calls `Push`. -/
def push (s : State Thread) (t : Thread) (size : ℕ) : State Thread :=
  let message := ⟨t, s.pushed.length, size⟩
  { s with pushed := s.pushed ++ [message] }.setActivity t (.pushing message)

/-- The end of `Enqueue`. -/
def enqueue (s : State Thread) (t : Thread) (message : PendingMessage Thread) : State Thread :=
  { s with
    started := true
    pendingBytes := s.pendingBytes + message.size
    queue := s.queue ++ [message]
    queued := s.queued ++ [message] }.setActivity t .none

/-- The queue is empty and no message is being sent. -/
def idle (s : State Thread) : Bool := s.queue.isEmpty && !s.sending

/-- The critical section of `Stop`. -/
def drain (s : State Thread) (t : Thread) : State Thread :=
  { s with
    stopped := true
    queue := []
    pendingBytes := 0 }.setActivity t (.draining s.queue)

end State

/-- One step, where `logging` is the identifier of the logging thread. -/
def step (logging : Thread) (s : State Thread) : Action Thread → Option (State Thread)
  | .push t size => if s.mayCall logging t then some (s.push t size) else none
  | .enqueue t =>
    match s.activity t with
    | .pushing message =>
      if s.onLoggingThread logging t then some (s.setActivity t (.sending message))
      else if s.pendingBytes + message.size ≤ kMaxPendingBytes ∨ s.stopped then
        if s.stopped then some (s.setActivity t (.sending message))
        else some (s.enqueue t message)
      else none
    | _ => none
  | .sendDirectly t =>
    match s.activity t with
    | .sending message => some ({ s with sent := s.sent ++ [message] }.setActivity t .none)
    | _ => none
  | .take =>
    match s.worker, s.queue with
    | .take, message :: queue =>
      if s.started then
        some { s with
          queue := queue
          pendingBytes := s.pendingBytes - message.size
          sending := true
          worker := .send message }
      else none
    | _, _ => none
  | .send =>
    match s.worker with
    | .send message => some { s with sent := s.sent ++ [message], worker := .finish }
    | _ => none
  | .finish =>
    match s.worker with
    | .finish => some { s with sending := false, worker := .take }
    | _ => none
  | .wait t => if s.mayCall logging t then some (s.setActivity t .waiting) else none
  | .waitReturns t =>
    match s.activity t with
    | .waiting =>
      if s.onLoggingThread logging t ∨ s.idle ∨ s.stopped then some (s.setActivity t .none)
      else none
    | _ => none
  | .stop t => if s.mayCall logging t then some (s.setActivity t .stopping) else none
  | .drain t =>
    match s.activity t with
    | .stopping => if s.onLoggingThread logging t ∨ s.idle then some (s.drain t) else none
    | _ => none
  | .sendRemaining t =>
    match s.activity t with
    | .draining [] => some (s.setActivity t .none)
    | .draining (message :: remaining) =>
      some ({ s with sent := s.sent ++ [message] }.setActivity t (.draining remaining))
    | _ => none

end Async

end NgLog
