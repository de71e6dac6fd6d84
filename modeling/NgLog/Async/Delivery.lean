import Mathlib.Algebra.GroupWithZero.Nat
import Mathlib.Data.List.Nodup
import NgLog.Async.LogThread

/-!
# The delivery of pending messages

In every interleaving, as long as `Stop` is not called on the logging thread, each message is sent
once and in the order of its thread. One equation for each thread says where its messages are: those
that have been sent, then the one that the logging thread holds, then those in the queue, and last
the one that the thread itself holds are the messages that it has pushed, in that order.

## Main definitions

* `byThread` — the messages of a thread
* `Delivering` — the invariant

## Main results

* `delivering_step` — every step keeps the invariant
* `idle_sent` — when nothing is queued or being sent, all queued messages have been sent
* `log_thread_delivers` — what holds after every run
-/

namespace NgLog

namespace Async

open Transition (run)

variable {Thread : Type} [DecidableEq Thread]

/-! ### The invariant -/

/-- The messages of a thread. -/
def byThread (t : Thread) (messages : List (PendingMessage Thread)) :
    List (PendingMessage Thread) :=
  messages.filter fun message => message.thread = t

/-- The messages that have been sent, are being sent and are queued. -/
def State.passed (s : State Thread) : List (PendingMessage Thread) :=
  s.sent ++ s.worker.held ++ s.queue

/-- What holds of a thread where it is: it sends its own messages only if it is the logging thread
or after `Stop`, and `Stop`, on another thread, finds an empty queue. -/
def ActivityOk (logging : Thread) (started stopped : Bool) (t : Thread) : Activity Thread → Prop
  | .pushing _ => t = logging → started = true
  | .sending _ => t = logging ∨ stopped = true
  | .stopping => t ≠ logging
  | .draining remaining => remaining = []
  | _ => True

/-- What holds between any two steps. -/
structure Delivering (logging : Thread) (s : State Thread) : Prop where
  /-- A thread's messages are passed on in order. -/
  order : ∀ t, byThread t s.pushed = byThread t s.passed ++ (s.activity t).held
  numbers : s.pushed.map PendingMessage.number = List.range s.pushed.length
  pending : s.pendingBytes = (s.queue.map PendingMessage.size).sum
  pending_le : s.pendingBytes ≤ kMaxPendingBytes
  sending : s.sending = false → s.worker = .take
  /-- The logging thread passes on messages of other threads only. -/
  foreign : ∀ message ∈ s.worker.held ++ s.queue, message.thread ≠ logging
  queued : ∀ message ∈ s.queued, message ∈ s.passed
  stopped : s.stopped = true → s.queue = [] ∧ s.worker = .take
  activities : ∀ t, ActivityOk logging s.started s.stopped t (s.activity t)

theorem delivering_init (logging : Thread) : Delivering logging (State.init : State Thread) where
  order := fun _ => rfl
  numbers := rfl
  pending := rfl
  pending_le := Nat.zero_le _
  sending := fun _ => rfl
  foreign := nofun
  queued := nofun
  stopped := nofun
  activities := fun _ => trivial

/-! ### The steps -/

/-- What `step` can do, one constructor for each way through a critical section. -/
inductive Step (logging : Thread) (s : State Thread) : Action Thread → State Thread → Prop
  | push {t size} (hmay : s.mayCall logging t = true) : Step logging s (.push t size)
    (s.push t size)
  | sendItself {t message} (hactivity : s.activity t = .pushing message)
      (hitself : s.onLoggingThread logging t = true ∨ s.stopped = true) :
      Step logging s (.enqueue t) (s.setActivity t (.sending message))
  | enqueue {t message} (hactivity : s.activity t = .pushing message)
      (hother : s.onLoggingThread logging t = false) (hstopped : s.stopped = false)
      (hspace : s.pendingBytes + message.size ≤ kMaxPendingBytes) :
      Step logging s (.enqueue t) (s.enqueue t message)
  | sendDirectly {t message} (hactivity : s.activity t = .sending message) :
      Step logging s (.sendDirectly t)
        ({ s with sent := s.sent ++ [message] }.setActivity t .none)
  | take {message queue} (hworker : s.worker = .take) (hqueue : s.queue = message :: queue) :
      Step logging s .take { s with
        queue := queue
        pendingBytes := s.pendingBytes - message.size
        sending := true
        worker := .send message }
  | send {message} (hworker : s.worker = .send message) :
      Step logging s .send { s with sent := s.sent ++ [message], worker := .finish }
  | finish (hworker : s.worker = .finish) :
      Step logging s .finish { s with sending := false, worker := .take }
  | wait {t} (hmay : s.mayCall logging t = true) :
      Step logging s (.wait t) (s.setActivity t .waiting)
  | waitReturns {t} (hactivity : s.activity t = .waiting)
      (hcondition : s.onLoggingThread logging t = true ∨ s.idle = true ∨ s.stopped = true) :
      Step logging s (.waitReturns t) (s.setActivity t .none)
  | stop {t} (hmay : s.mayCall logging t = true) :
      Step logging s (.stop t) (s.setActivity t .stopping)
  | drain {t} (hactivity : s.activity t = .stopping)
      (hcondition : s.onLoggingThread logging t = true ∨ s.idle = true) :
      Step logging s (.drain t) (s.drain t)
  | drained {t} (hactivity : s.activity t = .draining []) :
      Step logging s (.sendRemaining t) (s.setActivity t .none)
  | sendRemaining {t message remaining}
      (hactivity : s.activity t = .draining (message :: remaining)) :
      Step logging s (.sendRemaining t)
        ({ s with sent := s.sent ++ [message] }.setActivity t (.draining remaining))

theorem step_eq_some {logging : Thread} {s s' : State Thread} {a : Action Thread}
    (h : step logging s a = some s') : Step logging s a s' := by
  cases a with
  | push t size =>
    simp only [step, Option.ite_none_right_eq_some, Option.some.injEq] at h
    exact h.2 ▸ .push h.1
  | enqueue t =>
    simp only [step] at h
    split at h
    · rename_i hactivity
      split at h
      · cases h
        exact .sendItself hactivity (.inl ‹_›)
      · rename_i hother
        split at h
        · rename_i hspace
          split at h <;> cases h
          · exact .sendItself hactivity (.inr ‹_›)
          · rename_i hstopped
            exact .enqueue hactivity (by simpa using hother) (by simpa using hstopped)
              (hspace.resolve_right hstopped)
        · cases h
    · cases h
  | sendDirectly t =>
    simp only [step] at h
    split at h <;> cases h
    exact .sendDirectly ‹_›
  | take =>
    simp only [step] at h
    split at h
    · rename_i hworker hqueue
      simp only [Option.ite_none_right_eq_some, Option.some.injEq] at h
      exact h.2 ▸ .take hworker hqueue
    · cases h
  | send =>
    simp only [step] at h
    split at h <;> cases h
    exact .send ‹_›
  | finish =>
    simp only [step] at h
    split at h <;> cases h
    exact .finish ‹_›
  | wait t =>
    simp only [step, Option.ite_none_right_eq_some, Option.some.injEq] at h
    exact h.2 ▸ .wait h.1
  | waitReturns t =>
    simp only [step] at h
    split at h
    · rename_i hactivity
      simp only [Option.ite_none_right_eq_some, Option.some.injEq] at h
      exact h.2 ▸ .waitReturns hactivity h.1
    · cases h
  | stop t =>
    simp only [step, Option.ite_none_right_eq_some, Option.some.injEq] at h
    exact h.2 ▸ .stop h.1
  | drain t =>
    simp only [step] at h
    split at h
    · rename_i hactivity
      simp only [Option.ite_none_right_eq_some, Option.some.injEq] at h
      exact h.2 ▸ .drain hactivity h.1
    · cases h
  | sendRemaining t =>
    simp only [step] at h
    split at h <;> cases h
    · exact .drained ‹_›
    · exact .sendRemaining ‹_›

/-! ### Every step keeps the invariant -/

variable {logging : Thread} {s s' : State Thread}

theorem byThread_append (t : Thread) (messages messages' : List (PendingMessage Thread)) :
    byThread t (messages ++ messages') = byThread t messages ++ byThread t messages' :=
  List.filter_append ..

theorem byThread_self {t : Thread} {message : PendingMessage Thread} (h : message.thread = t) :
    byThread t [message] = [message] := by
  simp [byThread, h]

theorem byThread_other {t : Thread} {message : PendingMessage Thread} (h : message.thread ≠ t) :
    byThread t [message] = [] := by
  simp [byThread, h]

theorem activity_of_mayCall {t : Thread} (h : s.mayCall logging t = true) :
    s.activity t = .none ∧ (t = logging → s.started = true) := by
  simp only [State.mayCall, Bool.and_eq_true, Bool.or_eq_true, decide_eq_true_eq] at h
  refine ⟨?_, fun heq => h.2.resolve_left fun hne => hne heq⟩
  cases hactivity : s.activity t <;> simp [hactivity] at h
  rfl

/-- The message that a thread holds is one that it pushes. -/
theorem Delivering.thread_of_held (h : Delivering logging s) {t : Thread}
    {message : PendingMessage Thread} (hheld : message ∈ (s.activity t).held) :
    message.thread = t ∧ message ∈ s.pushed := by
  have hmem : message ∈ byThread t s.pushed := by
    rw [h.order]
    exact List.mem_append_right _ hheld
  have := List.mem_filter.mp hmem
  exact ⟨of_decide_eq_true this.2, this.1⟩

/-- After `Stop`, and for the logging thread, nothing is on its way. -/
theorem Delivering.nothing_passing (h : Delivering logging s) {t : Thread}
    (ht : t = logging ∨ s.stopped = true) : byThread t (s.worker.held ++ s.queue) = [] := by
  rcases ht with rfl | hstopped
  · exact List.filter_eq_nil_iff.mpr fun message hmem => by simpa using h.foreign message hmem
  · obtain ⟨hqueue, hworker⟩ := h.stopped hstopped
    rw [hqueue, hworker]
    rfl

/-- A thread goes on to another activity, with the same message or none. -/
theorem Delivering.setActivity (h : Delivering logging s) {t : Thread} {activity : Activity Thread}
    (hheld : activity.held = (s.activity t).held)
    (hok : ActivityOk logging s.started s.stopped t activity) :
    Delivering logging (s.setActivity t activity) := by
  refine { h with order := fun u => ?_, activities := fun u => ?_ }
  · by_cases hu : u = t
    · subst hu
      simp only [State.setActivity, Function.update_self, hheld]
      exact h.order u
    · simp only [State.setActivity, Function.update_of_ne hu]
      exact h.order u
  · by_cases hu : u = t
    · subst hu
      simpa only [State.setActivity, Function.update_self] using hok
    · simpa only [State.setActivity, Function.update_of_ne hu] using h.activities u

theorem Delivering.push (h : Delivering logging s) {t : Thread} (size : ℕ)
    (hmay : s.mayCall logging t = true) : Delivering logging (s.push t size) := by
  obtain ⟨hnone, hstarted⟩ := activity_of_mayCall hmay
  refine { h with order := fun u => ?_, numbers := ?_, activities := fun u => ?_ }
  · by_cases hu : u = t
    · subst hu
      have horder := h.order u
      rw [hnone] at horder
      simp only [State.push, State.setActivity, Function.update_self, byThread_append, horder,
        byThread_self, Activity.held, List.append_nil]
      rfl
    · have hother : byThread u [⟨t, s.pushed.length, size⟩] = [] := byThread_other (Ne.symm hu)
      simp only [State.push, State.setActivity, Function.update_of_ne hu, byThread_append, hother,
        List.append_nil]
      exact h.order u
  · simp only [State.push, State.setActivity, List.map_append, h.numbers, List.length_append,
      List.length_singleton, List.range_succ]
    rfl
  · by_cases hu : u = t
    · subst hu
      simp only [State.push, State.setActivity, Function.update_self]
      exact hstarted
    · simpa only [State.push, State.setActivity, Function.update_of_ne hu] using h.activities u

theorem Delivering.enqueue (h : Delivering logging s) {t : Thread}
    {message : PendingMessage Thread} (hactivity : s.activity t = .pushing message)
    (hother : s.onLoggingThread logging t = false) (hstopped : s.stopped = false)
    (hspace : s.pendingBytes + message.size ≤ kMaxPendingBytes) :
    Delivering logging (s.enqueue t message) := by
  obtain ⟨rfl, hpushed⟩ := h.thread_of_held (by rw [hactivity]; exact List.mem_singleton_self _)
  have hpassed : (s.enqueue message.thread message).passed = s.passed ++ [message] :=
    (List.append_assoc ..).symm
  have hnotLogging : message.thread ≠ logging := by
    intro heq
    have hok := h.activities message.thread
    rw [hactivity] at hok
    simp [State.onLoggingThread, hok heq, heq] at hother
  refine ⟨fun u => ?_, h.numbers, ?_, hspace, h.sending, ?_, ?_, ?_, fun u => ?_⟩
  · rw [hpassed, byThread_append]
    have horder := h.order u
    by_cases hu : u = message.thread
    · subst hu
      rw [hactivity] at horder
      simp only [State.enqueue, State.setActivity, Function.update_self, byThread_self, horder,
        Activity.held, List.append_nil]
    · simp only [State.enqueue, State.setActivity, Function.update_of_ne hu,
        byThread_other (Ne.symm hu), List.append_nil]
      exact horder
  · simp only [State.enqueue, State.setActivity, List.map_append, List.sum_append, ← h.pending]
    rfl
  · intro other hmem
    simp only [State.enqueue, State.setActivity, ← List.append_assoc] at hmem
    rcases List.mem_append.mp hmem with hmem | hmem
    · exact h.foreign other hmem
    · exact List.mem_singleton.mp hmem ▸ hnotLogging
  · intro other hmem
    rw [hpassed]
    rcases List.mem_append.mp hmem with hmem | hmem
    · exact List.mem_append_left _ (h.queued other hmem)
    · exact List.mem_append_right _ hmem
  · exact fun hyes => by cases hstopped.symm.trans hyes
  · by_cases hu : u = message.thread
    · subst hu
      simp only [State.enqueue, State.setActivity, Function.update_self]
      trivial
    · have hok := h.activities u
      simp only [State.enqueue, State.setActivity, Function.update_of_ne hu]
      cases hactivity' : s.activity u <;> rw [hactivity'] at hok <;> try exact hok
      exact fun _ => rfl

theorem Delivering.sendDirectly (h : Delivering logging s) {t : Thread}
    {message : PendingMessage Thread} (hactivity : s.activity t = .sending message) :
    Delivering logging ({ s with sent := s.sent ++ [message] }.setActivity t .none) := by
  obtain ⟨rfl, -⟩ := h.thread_of_held (by rw [hactivity]; exact List.mem_singleton_self _)
  have hok := h.activities message.thread
  rw [hactivity] at hok
  have hpassing := h.nothing_passing hok
  refine { h with order := fun u => ?_, queued := fun other hmem => ?_, activities := fun u => ?_ }
  · have horder := h.order u
    rw [State.passed, List.append_assoc, byThread_append] at horder
    simp only [State.passed, State.setActivity, List.append_assoc, byThread_append u s.sent,
      byThread_append u [message]]
    by_cases hu : u = message.thread
    · subst hu
      rw [hactivity, hpassing] at horder
      rw [Function.update_self, byThread_self rfl, hpassing, horder, List.append_nil]
      simp only [Activity.held, List.append_nil]
    · rw [Function.update_of_ne hu, byThread_other (Ne.symm hu), List.nil_append]
      simpa only [List.append_assoc] using horder
  · have := h.queued other hmem
    simp only [State.passed, State.setActivity, List.mem_append] at this ⊢
    tauto
  · by_cases hu : u = message.thread
    · subst hu
      simp only [State.setActivity, Function.update_self]
      trivial
    · simpa only [State.setActivity, Function.update_of_ne hu] using h.activities u

theorem Delivering.take (h : Delivering logging s) {message : PendingMessage Thread}
    {queue : List (PendingMessage Thread)} (hworker : s.worker = .take)
    (hqueue : s.queue = message :: queue) : Delivering logging { s with
      queue := queue
      pendingBytes := s.pendingBytes - message.size
      sending := true
      worker := .send message } := by
  have hpassed : s.passed = s.sent ++ [message] ++ queue := by
    rw [State.passed, hworker, hqueue]
    simp [Worker.held]
  have hpending := h.pending
  rw [hqueue, List.map_cons, List.sum_cons] at hpending
  refine { h with
    order := ?_, pending := ?_, pending_le := ?_, sending := nofun, foreign := ?_, queued := ?_,
    stopped := ?_ }
  · exact fun t => (h.order t).trans (by rw [hpassed]; rfl)
  · simp only [hpending]
    exact Nat.add_sub_cancel_left ..
  · exact Nat.le_trans (Nat.sub_le ..) h.pending_le
  · have := h.foreign
    rwa [hworker, hqueue] at this
  · intro other hmem
    have := h.queued other hmem
    rw [hpassed] at this
    exact this
  · intro hstopped
    cases hqueue.symm.trans (h.stopped hstopped).1

theorem Delivering.send (h : Delivering logging s) {message : PendingMessage Thread}
    (hworker : s.worker = .send message) :
    Delivering logging { s with sent := s.sent ++ [message], worker := .finish } := by
  have hpassed : s.passed = s.sent ++ [message] ++ [] ++ s.queue := by
    rw [State.passed, hworker, List.append_nil]
    rfl
  have hsending {b : Bool} (hb : s.sending = b) (hfalse : b = false) : False := by
    cases hworker.symm.trans (h.sending (hb.trans hfalse))
  refine { h with
    order := ?_, sending := fun hfalse => (hsending rfl hfalse).elim, foreign := ?_, queued := ?_,
    stopped := fun hstopped => ?_ }
  · exact fun t => (h.order t).trans (by rw [hpassed]; rfl)
  · exact fun other hmem => h.foreign other (List.mem_append_right _ hmem)
  · intro other hmem
    have := h.queued other hmem
    rw [hpassed] at this
    exact this
  · cases hworker.symm.trans (h.stopped hstopped).2

theorem Delivering.finish (h : Delivering logging s) (hworker : s.worker = .finish) :
    Delivering logging { s with sending := false, worker := .take } := by
  have hpassed : s.passed = s.sent ++ [] ++ s.queue := by
    rw [State.passed, hworker]
    rfl
  refine { h with
    order := ?_, sending := fun _ => rfl, foreign := ?_, queued := ?_,
    stopped := fun hstopped => ⟨(h.stopped hstopped).1, rfl⟩ }
  · exact fun t => (h.order t).trans (by rw [hpassed]; rfl)
  · exact fun other hmem => h.foreign other (List.mem_append_right _ hmem)
  · intro other hmem
    have := h.queued other hmem
    rw [hpassed] at this
    exact this

/-- Nothing is queued or being sent. -/
theorem Delivering.passed_of_idle (h : Delivering logging s)
    (hidle : s.idle = true ∨ s.stopped = true) :
    s.queue = [] ∧ s.worker = .take ∧ s.passed = s.sent := by
  have hempty : s.queue = [] ∧ s.worker = .take := by
    rcases hidle with hidle | hstopped
    · simp only [State.idle, Bool.and_eq_true, List.isEmpty_iff, Bool.not_eq_true'] at hidle
      exact ⟨hidle.1, h.sending hidle.2⟩
    · exact h.stopped hstopped
  refine ⟨hempty.1, hempty.2, ?_⟩
  rw [State.passed, hempty.1, hempty.2]
  exact (List.append_nil _).trans (List.append_nil _)

theorem Delivering.drain (h : Delivering logging s) {t : Thread}
    (hactivity : s.activity t = .stopping)
    (hcondition : s.onLoggingThread logging t = true ∨ s.idle = true) :
    Delivering logging (s.drain t) := by
  have hother := h.activities t
  rw [hactivity] at hother
  have hidle : s.idle = true := hcondition.resolve_left fun hyes => by
    simp only [State.onLoggingThread, Bool.and_eq_true, decide_eq_true_eq] at hyes
    exact hother hyes.2
  obtain ⟨hqueue, hworker, -⟩ := h.passed_of_idle (.inl hidle)
  have hpassed : (s.drain t).passed = s.passed := by
    rw [State.passed, State.passed, hqueue]
    rfl
  refine { h with
    order := fun u => ?_, pending := rfl, pending_le := Nat.zero_le _, foreign := ?_,
    queued := fun other hmem => hpassed ▸ h.queued other hmem,
    stopped := fun _ => ⟨rfl, hworker⟩, activities := fun u => ?_ }
  · rw [hpassed]
    have horder := h.order u
    by_cases hu : u = t
    · subst hu
      rw [hactivity] at horder
      simp only [State.drain, State.setActivity, Function.update_self]
      exact horder
    · simpa only [State.drain, State.setActivity, Function.update_of_ne hu] using horder
  · intro other hmem
    rw [State.drain, State.setActivity, hworker] at hmem
    cases hmem
  · by_cases hu : u = t
    · subst hu
      simp only [State.drain, State.setActivity, Function.update_self]
      exact hqueue
    · have hok := h.activities u
      simp only [State.drain, State.setActivity, Function.update_of_ne hu]
      cases hactivity' : s.activity u <;> rw [hactivity'] at hok <;> try exact hok
      exact .inr rfl

/-- Every step keeps the invariant, as long as `Stop` is not called on the logging thread. -/
theorem delivering_step {a : Action Thread} (ha : a ≠ .stop logging)
    (h : Delivering logging s) (hstep : step logging s a = some s') : Delivering logging s' := by
  cases step_eq_some hstep with
  | push hmay => exact h.push _ hmay
  | @sendItself t message hactivity hitself =>
    refine h.setActivity (by rw [hactivity]; rfl) ?_
    refine hitself.imp_left fun hyes => ?_
    simp only [State.onLoggingThread, Bool.and_eq_true, decide_eq_true_eq] at hyes
    exact hyes.2
  | enqueue hactivity hother hstopped hspace => exact h.enqueue hactivity hother hstopped hspace
  | sendDirectly hactivity => exact h.sendDirectly hactivity
  | take hworker hqueue => exact h.take hworker hqueue
  | send hworker => exact h.send hworker
  | finish hworker => exact h.finish hworker
  | wait hmay => exact h.setActivity (by rw [(activity_of_mayCall hmay).1]; rfl) trivial
  | waitReturns hactivity => exact h.setActivity (by rw [hactivity]; rfl) trivial
  | stop hmay =>
    exact h.setActivity (by rw [(activity_of_mayCall hmay).1]; rfl) fun heq => ha (heq ▸ rfl)
  | drain hactivity hcondition => exact h.drain hactivity hcondition
  | drained hactivity => exact h.setActivity (by rw [hactivity]; rfl) trivial
  | @sendRemaining t message remaining hactivity =>
    have hok := h.activities t
    rw [hactivity] at hok
    cases hok

/-! ### Runs -/

theorem delivering_run {actions : List (Action Thread)} (hstop : .stop logging ∉ actions)
    (hrun : run (step logging) State.init actions = some s) : Delivering logging s :=
  Transition.run_invariant (P := (· ≠ .stop logging))
    (fun _ _ _ ha h hstep => delivering_step ha h hstep)
    (fun _ ha heq => hstop (by rwa [heq] at ha)) (delivering_init logging) hrun

/-- No message is pushed twice. -/
theorem Delivering.nodup_pushed (h : Delivering logging s) : s.pushed.Nodup :=
  List.Nodup.of_map _ (h.numbers ▸ List.nodup_range)

omit [DecidableEq Thread] in
/-- A list without repetitions for each thread has none. -/
theorem nodup_of_byThread [DecidableEq Thread] {messages : List (PendingMessage Thread)}
    (h : ∀ t, (byThread t messages).Nodup) : messages.Nodup := by
  induction messages with
  | nil => exact .nil
  | cons message messages ih =>
    refine List.nodup_cons.mpr ⟨fun hmem => ?_, ih fun t => ?_⟩
    · have hnodup := h message.thread
      rw [byThread, List.filter_cons_of_pos (by simp)] at hnodup
      exact (List.nodup_cons.mp hnodup).1 (List.mem_filter.mpr ⟨hmem, by simp⟩)
    · have hnodup := h t
      rw [byThread, List.filter_cons] at hnodup
      split at hnodup
      · exact (List.nodup_cons.mp hnodup).2
      · exact hnodup

/-- What has been sent of a thread is a first part of what it has pushed. -/
theorem Delivering.sent_prefix (h : Delivering logging s) (t : Thread) :
    byThread t s.sent <+: byThread t s.pushed := by
  rw [h.order, State.passed, List.append_assoc, byThread_append, List.append_assoc]
  exact List.prefix_append ..

theorem Delivering.nodup_sent (h : Delivering logging s) : s.sent.Nodup :=
  nodup_of_byThread fun t =>
    (h.nodup_pushed.filter _).sublist (h.sent_prefix t).sublist

/-- Where a message is. -/
theorem Delivering.mem_passed_or_held (h : Delivering logging s) {message : PendingMessage Thread}
    (hmem : message ∈ s.pushed) : message ∈ s.sent ∨ message ∈ s.worker.held ∨
      message ∈ s.queue ∨ message ∈ (s.activity message.thread).held := by
  have hthread : message ∈ byThread message.thread s.pushed :=
    List.mem_filter.mpr ⟨hmem, decide_eq_true rfl⟩
  rw [h.order] at hthread
  rcases List.mem_append.mp hthread with hpassed | hheld
  · have := (List.mem_filter.mp hpassed).1
    rw [State.passed, List.mem_append, List.mem_append] at this
    tauto
  · exact .inr (.inr (.inr hheld))

theorem queued_prefix_step {a : Action Thread} (hstep : step logging s a = some s') :
    s.queued <+: s'.queued := by
  cases step_eq_some hstep with
  | enqueue => exact List.prefix_append ..
  | _ => exact List.prefix_rfl

/-- When nothing is queued or being sent, or after `Stop`, all queued messages have been sent. -/
theorem idle_sent (h : Delivering logging s) (hidle : s.idle = true ∨ s.stopped = true) :
    ∀ message ∈ s.queued, message ∈ s.sent := by
  rw [← (h.passed_of_idle hidle).2.2]
  exact h.queued

/-- After every sequence of steps without a call of `Stop` on the logging thread: no message has
been sent twice, and each one that has been pushed has been sent, is being sent or queued, or is
held by the thread that pushes it; the messages of a thread have been sent in the order in which it
has pushed them; `pending_bytes_` is the size of the queue and within its bound; and when `Wait` has
just returned on another thread, all messages that had been queued when it was called have been
sent. -/
theorem log_thread_delivers (logging : Thread) (actions : List (Action Thread)) (s : State Thread)
    (hstop : .stop logging ∉ actions)
    (hrun : run (step logging) State.init actions = some s) :
    s.sent.Nodup ∧
      (∀ message ∈ s.pushed, message ∈ s.sent ∨ message ∈ s.worker.held ∨ message ∈ s.queue ∨
        message ∈ (s.activity message.thread).held) ∧
      (∀ t, byThread t s.sent <+: byThread t s.pushed) ∧
      s.pendingBytes = (s.queue.map PendingMessage.size).sum ∧
      s.pendingBytes ≤ kMaxPendingBytes ∧
      ∀ before t during s₁, actions = before ++ Action.wait t :: during ++ [Action.waitReturns t] →
        t ≠ logging → run (step logging) State.init before = some s₁ →
          ∀ message ∈ s₁.queued, message ∈ s.sent := by
  have h := delivering_run hstop hrun
  refine ⟨h.nodup_sent, fun _ => h.mem_passed_or_held, h.sent_prefix, h.pending, h.pending_le, ?_⟩
  rintro before t during s₁ rfl ht hbefore message hmem
  obtain ⟨s₂, hduring, hreturns⟩ := Transition.run_concat_eq_some.mp hrun
  obtain ⟨s₁', hbefore', hwaiting⟩ := Transition.run_append_eq_some.mp hduring
  obtain rfl : s₁ = s₁' := Option.some.inj (hbefore.symm.trans hbefore')
  have hqueued : s₁.queued <+: s.queued := Transition.run_invariant_all
    (I := fun s => s₁.queued <+: s.queued)
    (fun _ _ _ hprefix hstep => hprefix.trans (queued_prefix_step hstep)) List.prefix_rfl
    (Transition.run_concat_eq_some.mpr ⟨s₂, hwaiting, hreturns⟩)
  cases step_eq_some hreturns with
  | waitReturns hactivity hcondition =>
    refine idle_sent h (hcondition.resolve_left fun hyes => ?_) message (hqueued.subset hmem)
    simp only [State.onLoggingThread, Bool.and_eq_true, decide_eq_true_eq] at hyes
    exact ht hyes.2

/-- Two threads push messages, one of them waits, and the other one exits: thread 0 is the logging
thread. -/
def someActions : List (Action ℕ) :=
  [.push 1 5, .push 2 7, .enqueue 2, .take, .enqueue 1, .wait 2, .send, .finish, .take, .send,
    .finish, .waitReturns 2, .stop 1, .drain 1, .sendRemaining 1, .push 2 3, .enqueue 2,
    .sendDirectly 2]

theorem log_thread_delivers_someActions : ∃ s : State ℕ,
    run (step 0) State.init someActions = some s ∧ s.sent.Nodup ∧
      byThread 2 s.sent = [⟨2, 1, 7⟩, ⟨2, 2, 3⟩] := by
  refine ⟨_, rfl, (log_thread_delivers 0 someActions _ (by simp [someActions]) rfl).1, rfl⟩

end Async

end NgLog
