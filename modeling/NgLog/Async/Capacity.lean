import Mathlib.Algebra.GroupWithZero.Nat
import NgLog.Async.Delivery

/-!
# The capacity of the queue

A thread that defers a message waits until the message fits into the queue. The bound on the queue
"far exceeds the size of any single message, so that one always fits". But a message owns copies of
its format string and of its string arguments, of any length, and counts them. When the queue is
empty its counter is zero, whatever has happened before, so a message fits into the empty queue if
and only if the message alone is within the bound. A longer one waits for `Stop`.

Forks are part of the histories here: the child of a fork has an empty queue, and starts a logging
thread of its own. A fork on the logging thread, in a sink, is left out.

## Main definitions

* `DeferredMessage` — what a deferred message copies, and its `size`
* `State.waitPredicate` — the condition of the wait in `Enqueue`
* `Process`, `ProcessAction`, `processStep` — the logging thread and its forks

## Main results

* `enqueue_enabled_iff` — `Enqueue` goes on exactly when the predicate holds
* `counts_run` — the counter is the size of the queue
* `message_fits_iff` — the messages that fit into an empty queue
* `oversized_waits` — a message that does not fit waits until the queue is stopped
-/

namespace NgLog

namespace Async

open Transition (run)

/-! ### Deferred messages -/

/-- A `std::string` or a `std::wstring`. -/
inductive Text
  | narrow (text : List UInt8)
  | wide (text : List UInt32)

/-- A deferred argument: the copy of a text, or a value of another type. -/
inductive DeferredArgument
  | text (copy : Text)
  | other

/-- `size() * sizeof(value_type)`. -/
def Text.bytes : Text → ℕ
  | .narrow text => text.length * 1
  | .wide text => text.length * 4

/-- `TextSize`. -/
def textSize : DeferredArgument → ℕ
  | .text copy => copy.bytes
  | .other => 0

/-- `DeferredMessageOf`, with the size of the object itself. -/
structure DeferredMessage where
  sizeofThis : ℕ
  format : Text
  arguments : List DeferredArgument

/-- `DeferredMessageOf::size`. -/
def DeferredMessage.size (m : DeferredMessage) : ℕ :=
  m.sizeofThis + textSize (.text m.format) +
    m.arguments.foldl (fun total argument => total + textSize argument) 0

/-- The text of an argument that is one. -/
def DeferredArgument.copy? : DeferredArgument → Option Text
  | .text copy => some copy
  | .other => none

/-- The texts that the message has copied. -/
def DeferredMessage.texts (m : DeferredMessage) : List Text :=
  m.format :: m.arguments.filterMap DeferredArgument.copy?

@[simp] theorem textSize_text (copy : Text) : textSize (.text copy) = copy.bytes := rfl

@[simp] theorem textSize_other : textSize .other = 0 := rfl

@[simp] theorem copy?_text (copy : Text) : (DeferredArgument.text copy).copy? = some copy := rfl

@[simp] theorem copy?_other : DeferredArgument.other.copy? = none := rfl

theorem foldl_textSize (arguments : List DeferredArgument) (total : ℕ) :
    arguments.foldl (fun total argument => total + textSize argument) total =
      total + ((arguments.filterMap DeferredArgument.copy?).map Text.bytes).sum := by
  induction arguments generalizing total with
  | nil => simp
  | cons argument arguments ih =>
    cases argument with
    | text copy => simp [ih, Nat.add_assoc]
    | other =>
      rw [List.filterMap_cons_none copy?_other]
      simp [ih]

/-- The size of a message is that of the object and of all texts that it has copied. -/
theorem DeferredMessage.size_eq (m : DeferredMessage) :
    m.size = m.sizeofThis + (m.texts.map Text.bytes).sum := by
  rw [size, foldl_textSize, texts, List.map_cons, List.sum_cons, textSize_text]
  omega

/-! ### Waiting for space -/

variable {Thread : Type} [DecidableEq Thread]

/-- The condition of the wait in `Enqueue`. -/
def State.waitPredicate (s : State Thread) (size : ℕ) : Prop :=
  s.pendingBytes + size ≤ kMaxPendingBytes ∨ s.stopped = true

/-- On another thread than the logging thread, `Enqueue` goes on exactly when the condition of its
wait holds. -/
theorem enqueue_enabled_iff {logging t : Thread} {s : State Thread}
    {message : PendingMessage Thread} (hactivity : s.activity t = .pushing message)
    (hother : s.onLoggingThread logging t = false) :
    (∃ s', step logging s (.enqueue t) = some s') ↔ s.waitPredicate message.size := by
  simp only [step, hactivity, hother, State.waitPredicate]
  by_cases hspace : s.pendingBytes + message.size ≤ kMaxPendingBytes ∨ s.stopped = true
  · cases hstopped : s.stopped <;> simp_all
  · simp_all

/-! ### Forks -/

/-- A process with its logging thread: its identifier, and the state. -/
structure Process (Thread : Type) where
  logging : Thread
  state : State Thread

/-- The process before the first call. -/
def Process.init (logging : Thread) : Process Thread := ⟨logging, State.init⟩

/-- A step of a thread, or a fork that is followed into the child. -/
inductive ProcessAction (Thread : Type)
  | act (a : Action Thread)
  /-- The thread forks; the child's logging thread would have the identifier `logging`. -/
  | fork (t logging : Thread)

/-- `ResumeChildAfterFork`, in the child, in which only the thread goes on that has forked. -/
def State.resumeChildAfterFork (s : State Thread) (t : Thread) : State Thread :=
  { s with
    started := false
    queue := []
    pendingBytes := 0
    sending := false
    worker := .take
    activity := Function.update (fun _ => .none) t (s.activity t) }

/-- One step of the process or, from a fork on, of its child. -/
def processStep (p : Process Thread) : ProcessAction Thread → Option (Process Thread)
  | .act a => (step p.logging p.state a).map fun s => ⟨p.logging, s⟩
  | .fork t logging =>
    if p.state.onLoggingThread p.logging t ∨ logging = t then none
    else some ⟨logging, p.state.resumeChildAfterFork t⟩

/-! ### The counter -/

/-- `pending_bytes_` is the size of the queue. -/
def Counts (s : State Thread) : Prop := s.pendingBytes = (s.queue.map PendingMessage.size).sum

theorem counts_step {logging : Thread} {s s' : State Thread} {a : Action Thread} (h : Counts s)
    (hstep : step logging s a = some s') : Counts s' := by
  cases step_eq_some hstep with
  | @enqueue t message _ _ _ _ =>
    change s.pendingBytes + message.size = ((s.queue ++ [message]).map PendingMessage.size).sum
    rw [List.map_append, List.sum_append, ← h]
    rfl
  | @take message queue _ hqueue =>
    change s.pendingBytes - message.size = (queue.map PendingMessage.size).sum
    rw [h, hqueue, List.map_cons, List.sum_cons, Nat.add_sub_cancel_left]
  | drain => exact rfl
  | _ => exact h

theorem counts_processStep (p : Process Thread) (a : ProcessAction Thread) (p' : Process Thread)
    (h : Counts p.state) (hstep : processStep p a = some p') : Counts p'.state := by
  cases a with
  | act a =>
    obtain ⟨s', hs', rfl⟩ := Option.map_eq_some_iff.mp hstep
    exact counts_step h hs'
  | fork t logging =>
    rw [processStep, Option.ite_none_left_eq_some] at hstep
    obtain ⟨-, hstep⟩ := hstep
    cases hstep
    exact rfl

/-- In every state that can be reached, the counter is the size of the queue. -/
theorem counts_run {logging : Thread} {actions : List (ProcessAction Thread)} {p : Process Thread}
    (hrun : run processStep (Process.init logging) actions = some p) : Counts p.state :=
  Transition.run_invariant_all (I := fun p : Process Thread => Counts p.state)
    counts_processStep (show Counts State.init from rfl) hrun

/-! ### The messages that fit -/

/-- In every state that can be reached in which the queue is empty, nothing is being sent and the
thread has not been stopped, the condition of the wait holds for a message if and only if the object
with all texts that it has copied is not larger than the bound. -/
theorem message_fits_iff (logging : Thread) (actions : List (ProcessAction Thread))
    (p : Process Thread) (hrun : run processStep (Process.init logging) actions = some p)
    (hempty : p.state.queue = []) (_hsending : p.state.sending = false)
    (hstopped : p.state.stopped = false) (m : DeferredMessage) :
    p.state.waitPredicate m.size ↔
      m.sizeofThis + (m.texts.map Text.bytes).sum ≤ kMaxPendingBytes := by
  have hcounter : p.state.pendingBytes = 0 := by
    rw [counts_run hrun, hempty]
    rfl
  simp [State.waitPredicate, hcounter, hstopped, m.size_eq]

/-- A thread has pushed a message, which has been sent, and another one. -/
def pushTwice : List (ProcessAction ℕ) :=
  [.act (.push 1 5), .act (.enqueue 1), .act .take, .act .send, .act .finish, .act (.push 1 3)]

theorem message_fits_pushTwice : ∃ p : Process ℕ,
    run processStep (Process.init 0) pushTwice = some p ∧
      (p.state.waitPredicate (DeferredMessage.mk 64 (.narrow [123, 125]) [.other]).size ↔
        64 + ([Text.narrow [123, 125]].map Text.bytes).sum ≤ kMaxPendingBytes) :=
  ⟨_, rfl, message_fits_iff 0 pushTwice _ rfl rfl rfl rfl ⟨64, .narrow [123, 125], [.other]⟩⟩

/-- A thread waits for space for a message that is larger than the bound. -/
def Waits (t : Thread) (message : PendingMessage Thread) (s : State Thread) : Prop :=
  s.activity t = .pushing message ∧ s.stopped = false

/-- A thread that pushes a message larger than the bound, and is not the logging thread, is still in
`Enqueue` after every run in which no other thread stops the queue. -/
theorem oversized_waits {logging t : Thread} {message : PendingMessage Thread} (ht : t ≠ logging)
    (hsize : kMaxPendingBytes < message.size) {actions : List (Action Thread)}
    (hstop : ∀ u, Action.drain u ∉ actions) {s s' : State Thread} (h : Waits t message s)
    (hrun : run (step logging) s actions = some s') : Waits t message s' := by
  have hother (s : State Thread) : s.onLoggingThread logging t = false := by
    simp [State.onLoggingThread, ht]
  have hmoved {s : State Thread} {u : Thread} (hs : Waits t message s) (activity : Activity Thread)
      (hu : s.activity u ≠ .pushing message) : Function.update s.activity u activity t =
        .pushing message := by
    rw [Function.update_of_ne, hs.1]
    rintro rfl
    exact hu hs.1
  refine Transition.run_invariant (I := Waits t message) (P := fun a => ∀ u, a ≠ .drain u)
    (fun s a s' hno hs hstep => ?_) (fun _ ha u heq => hstop u (by rwa [← heq])) h hrun
  have hne {u : Thread} {activity : Activity Thread} (hu : s.activity u = activity)
      (hactivity : activity ≠ .pushing message) : s.activity u ≠ .pushing message := hu ▸ hactivity
  cases step_eq_some hstep with
  | push hmay => exact ⟨hmoved hs _ (hne (activity_of_mayCall hmay).1 (by simp)), hs.2⟩
  | @sendItself u message' hactivity hitself =>
    refine ⟨?_, hs.2⟩
    rw [hs.2] at hitself
    have hu : t ≠ u := by
      rintro rfl
      simp [hother] at hitself
    exact (Function.update_of_ne hu ..).trans hs.1
  | @enqueue u message' hactivity _ _ hspace =>
    refine ⟨(Function.update_of_ne ?_ ..).trans hs.1, hs.2⟩
    rintro rfl
    rw [hs.1] at hactivity
    cases hactivity
    omega
  | sendDirectly hactivity => exact ⟨hmoved hs _ (hne hactivity (by simp)), hs.2⟩
  | take => exact hs
  | send => exact hs
  | finish => exact hs
  | wait hmay => exact ⟨hmoved hs _ (hne (activity_of_mayCall hmay).1 (by simp)), hs.2⟩
  | waitReturns hactivity => exact ⟨hmoved hs _ (hne hactivity (by simp)), hs.2⟩
  | stop hmay => exact ⟨hmoved hs _ (hne (activity_of_mayCall hmay).1 (by simp)), hs.2⟩
  | drain => exact absurd rfl (hno _)
  | drained hactivity => exact ⟨hmoved hs _ (hne hactivity (by simp)), hs.2⟩
  | sendRemaining hactivity => exact ⟨hmoved hs _ (hne hactivity (by simp)), hs.2⟩

/-- A message with a format string of two bytes and a string argument of the given length. -/
def messageWith (length : ℕ) : DeferredMessage :=
  ⟨64, .narrow [123, 125], [.text (.narrow (List.replicate length 32))]⟩

theorem size_messageWith (length : ℕ) : (messageWith length).size = 66 + length := by
  simp [messageWith, DeferredMessage.size, Text.bytes]

/-- Before the first call, a message with an argument of eight mebibytes does not fit. -/
theorem large_message_waits : ¬∀ (logging : ℕ) (actions : List (ProcessAction ℕ)) (p : Process ℕ),
    run processStep (Process.init logging) actions = some p → p.state.queue = [] →
      p.state.sending = false → p.state.stopped = false →
        ∀ m : DeferredMessage, p.state.waitPredicate m.size := by
  intro hall
  have hfresh := hall 0 [] (Process.init 0) rfl rfl rfl rfl (messageWith kMaxPendingBytes)
  rcases hfresh with hfits | hstop
  · rw [size_messageWith] at hfits
    omega
  · cases hstop

end Async

end NgLog
