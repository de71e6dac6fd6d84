import Mathlib.Algebra.BigOperators.Group.Finset.Basic
import Mathlib.Algebra.Order.BigOperators.Group.Finset
import Mathlib.Algebra.GroupWithZero.Nat
import NgLog.Signals.FailureHandler

/-!
# The failure handlers come to their end

Without new signals, if an exchange does not fail for no reason and if `FlushLogFilesUnsafe`
returns, the handlers of all threads return or the process ends. A flush that does not return, since
the interrupted code of a thread holds the lock of a stream, keeps its activation for good. A step
that does not only find the dump still owned lowers a rank: what is left to do in the activations,
those that pending signals will begin included, and then how many of those that wait have not yet
seen whether the dump is owned. As long as an activation is left, one of the threads can take such a
step: if one waits, the thread of the owner can.

## Main definitions

* `Useful` — a step that is none of a new signal, a look at a dump that is owned, an exchange that
  fails though the dump is free, and a flush that has not returned yet
* `rank` — what is left to do

## Main results

* `rank_step` — useful steps lower the rank
* `exists_useful` — an activation is left only if a useful step can be taken
* `handlers_finish` — every run of useful steps ends, with all handlers returned or the process dead
-/

namespace NgLog

namespace Signals

open Interrupts

variable {T Chunk : Type*} {dump : T → FailureSignal → List Chunk}
  {flushReturns : T → FailureSignal → Bool} {ignored : FailureSignal → Bool}

/-- The step is none of a new signal, a look at a dump that is owned, an exchange that fails though
the dump is free, and a flush that has not returned yet. -/
def Useful (w : Process T FailureSignal Bool (Shared Chunk) (Phase Chunk)) :
    Event T FailureSignal → Prop
  | .send _ | .fault _ _ => False
  | .deliver _ _ | .resume _ => True
  | .run t fails =>
    match w.frames t with
    | (_, .wait) :: _ => w.shared.entered = false
    | (_, .exchange) :: _ => w.shared.entered = true ∨ fails = false
    | (_, .flush) :: _ => fails = false
    | _ => True

/-! ### What is left to do -/

/-- What is left to do in an activation whose dump has `size` chunks. -/
def Phase.cost (size : ℕ) : Phase Chunk → ℕ
  | .start => 12 + size
  | .mark => 11 + size
  | .exchange | .wait => 10 + size
  | .handle remaining => 9 + remaining.length
  | .flush => 8
  | .invoke _ => 7
  | .kill _ => 6
  | .release => 4
  | .unmark => 3
  | .done => 2

/-- The activation waits and has not seen whether the dump is owned. -/
def Phase.unaware (entered : Bool) : Phase Chunk → ℕ
  | .exchange => if entered then 1 else 0
  | .wait => if entered then 0 else 1
  | _ => 0

/-- What is left to do on a thread. -/
def threadCost (dump : T → FailureSignal → List Chunk) (t : T)
    (thread : Thread FailureSignal Bool (Phase Chunk)) : ℕ :=
  (thread.frames.map fun frame => frame.2.cost (dump t frame.1).length).sum +
    thread.exiting.isSome.toNat

/-- How many activations of a thread have not seen whether the dump is owned. -/
def threadUnaware (entered : Bool) (thread : Thread FailureSignal Bool (Phase Chunk)) : ℕ :=
  (thread.frames.map fun frame => frame.2.unaware entered).sum

variable [Fintype T]

/-- What is left to do for a pending signal. -/
def signalCost (dump : T → FailureSignal → List Chunk) (signal : FailureSignal)
    (isDefault pending : Bool) : ℕ :=
  if pending then if isDefault then 1 else 13 + ∑ t, (dump t signal).length else 0

/-- What is left to do in the process. -/
def cost (dump : T → FailureSignal → List Chunk)
    (w : Process T FailureSignal Bool (Shared Chunk) (Phase Chunk)) : ℕ :=
  ∑ t, threadCost dump t (w.threads t) + ∑ signal, signalCost dump signal (w.isDefault signal)
    (w.pending signal) + w.alive.toNat

/-- How many activations have not seen whether the dump is owned. -/
def unaware (w : Process T FailureSignal Bool (Shared Chunk) (Phase Chunk)) : ℕ :=
  ∑ t, threadUnaware w.shared.entered (w.threads t)

/-- What is left to do comes first. -/
def rank (dump : T → FailureSignal → List Chunk)
    (w : Process T FailureSignal Bool (Shared Chunk) (Phase Chunk)) : ℕ :=
  cost dump w * (Fintype.card T + 1) + unaware w

/-- A sum after one of its terms has changed. -/
theorem sum_update {ι β : Type*} [Fintype ι] [DecidableEq ι] (term : ι → β → ℕ) (f : ι → β) (i : ι)
    (b : β) :
    ∑ j, term j (Function.update f i b j) + term i (f i) = ∑ j, term j (f j) + term i b := by
  rw [← Finset.add_sum_erase Finset.univ _ (Finset.mem_univ i),
    ← Finset.add_sum_erase Finset.univ (fun j => term j (f j)) (Finset.mem_univ i),
    Function.update_self]
  have hrest : ∑ j ∈ Finset.univ.erase i, term j (Function.update f i b j) =
      ∑ j ∈ Finset.univ.erase i, term j (f j) :=
    Finset.sum_congr rfl fun j hj => by rw [Function.update_of_ne (Finset.ne_of_mem_erase hj)]
  rw [hrest]
  omega

variable [DecidableEq T] {w w' : Process T FailureSignal Bool (Shared Chunk) (Phase Chunk)}

theorem cost_setThread (dump : T → FailureSignal → List Chunk)
    (w : Process T FailureSignal Bool (Shared Chunk) (Phase Chunk)) (t : T)
    (thread : Thread FailureSignal Bool (Phase Chunk)) :
    cost dump (w.setThread t thread) + threadCost dump t (w.threads t) =
      cost dump w + threadCost dump t thread := by
  have hsum := sum_update (threadCost dump) w.threads t thread
  simp only [cost, Process.setThread]
  omega

omit [DecidableEq T] in
theorem cost_setPending (dump : T → FailureSignal → List Chunk)
    (w : Process T FailureSignal Bool (Shared Chunk) (Phase Chunk)) (signal : FailureSignal)
    (pending : Bool) :
    cost dump (w.setPending signal pending) +
        signalCost dump signal (w.isDefault signal) (w.pending signal) =
      cost dump w + signalCost dump signal (w.isDefault signal) pending := by
  have hsum := sum_update (fun other => signalCost dump other (w.isDefault other)) w.pending
    signal pending
  simp only [cost, Process.setPending]
  omega

omit [DecidableEq T] in
theorem cost_setDefault (dump : T → FailureSignal → List Chunk)
    (w : Process T FailureSignal Bool (Shared Chunk) (Phase Chunk)) (signal : FailureSignal) :
    cost dump { w with isDefault := Function.update w.isDefault signal true } ≤ cost dump w := by
  have hsum := sum_update (fun other isDefault => signalCost dump other isDefault (w.pending other))
    w.isDefault signal true
  have hle : signalCost dump signal true (w.pending signal) ≤
      signalCost dump signal (w.isDefault signal) (w.pending signal) := by
    cases w.pending signal <;> cases w.isDefault signal <;> simp [signalCost]
    omega
  simp only [cost]
  omega

theorem cost_push (dump : T → FailureSignal → List Chunk)
    (flushReturns : T → FailureSignal → Bool)
    (w : Process T FailureSignal Bool (Shared Chunk) (Phase Chunk)) (t : T)
    (signal : FailureSignal) :
    cost dump (w.push (FailureSignalHandler dump flushReturns) t signal) =
      cost dump w + (12 + (dump t signal).length) := by
  have hcost := cost_setThread dump w t
    ⟨(w.threads t).locals, (signal, .start) :: (w.threads t).frames, (w.threads t).exiting⟩
  have hthread : threadCost dump t
      ⟨(w.threads t).locals, (signal, .start) :: (w.threads t).frames, (w.threads t).exiting⟩ =
        threadCost dump t (w.threads t) + (12 + (dump t signal).length) := by
    simp only [threadCost, List.map_cons, List.sum_cons, Phase.cost]
    omega
  have hpush : w.push (FailureSignalHandler dump flushReturns) t signal = w.setThread t
      ⟨(w.threads t).locals, (signal, .start) :: (w.threads t).frames, (w.threads t).exiting⟩ := rfl
  rw [hpush]
  omega

/-- What a step of an activation leaves it with. -/
def left (size : ℕ) : Effect (Phase Chunk) → ℕ
  | .goto next | .setDefault next | .raise next => next.cost size
  | .finish => 1

/-- What a signal that is sent again leaves to do. -/
def raised : Effect (Phase Chunk) → ℕ
  | .raise _ => 1
  | _ => 0

omit [DecidableEq T] in
theorem cost_apply {signal : FailureSignal} {effect : Effect (Phase Chunk)} {p : Phase Chunk}
    (heffect : effect.Lawful Phase.Reset Phase.Sent p)
    (hdefault : p.Reset → w.isDefault signal = true) :
    cost dump (w.apply signal effect) ≤ cost dump w + raised effect := by
  cases effect with
  | goto | finish => exact Nat.le_refl _
  | setDefault next => exact cost_setDefault dump w signal
  | raise next =>
    have hcost := cost_setPending dump w signal true
    have hone : signalCost dump signal (w.isDefault signal) true = 1 := by
      simp [signalCost, hdefault heffect]
    simp only [Process.apply, raised]
    omega

/-- A step of an activation costs what it leaves less than before. -/
theorem cost_advance (dump : T → FailureSignal → List Chunk)
    (flushReturns : T → FailureSignal → Bool) {t : T} {signal : FailureSignal}
    {p : Phase Chunk} {rest : List (FailureSignal × Phase Chunk)} (fails : Bool)
    (hexiting : (w.threads t).exiting = none) (hframes : (w.threads t).frames = (signal, p) :: rest)
    (hdefault : p.Reset → w.isDefault signal = true) :
    let effect :=
      ((FailureSignalHandler dump flushReturns).next t signal fails
        (w.threads t).locals w.shared p).2.2
    cost dump (w.advance (FailureSignalHandler dump flushReturns) t signal p rest fails) +
        p.cost (dump t signal).length ≤
      cost dump w + left (dump t signal).length effect + raised effect := by
  have hlawful := (reraises dump flushReturns).next t signal fails (w.threads t).locals w.shared p
  simp only [Process.advance]
  generalize (FailureSignalHandler dump flushReturns).next t signal fails
    (w.threads t).locals w.shared p = result at hlawful ⊢
  obtain ⟨locals, shared, effect⟩ := result
  dsimp only at hlawful ⊢
  have hsignal : cost dump ({ w with shared := shared }.apply signal effect) ≤ cost dump w +
    raised effect :=
    cost_apply (w := { w with shared := shared }) hlawful hdefault
  have hthread := cost_setThread dump ({ w with shared := shared }.apply signal effect) t
    ⟨locals, effect.frames signal rest, effect.exiting signal⟩
  have hbefore : threadCost dump t (w.threads t) = p.cost (dump t signal).length +
      (rest.map fun frame => frame.2.cost (dump t frame.1).length).sum := by
    simp [threadCost, hframes, hexiting]
  have hafter : threadCost dump t ⟨locals, effect.frames signal rest, effect.exiting signal⟩ =
      left (dump t signal).length effect +
        (rest.map fun frame => frame.2.cost (dump t frame.1).length).sum := by
    cases effect <;> simp [threadCost, left, Effect.frames, Effect.exiting, Nat.add_comm]
  rw [threads_apply] at hthread
  dsimp only at hthread
  omega

/-! ### Activations that wait -/

omit [Fintype T] [DecidableEq T] in
theorem sum_unaware_eq_zero {entered : Bool} {frames : List (FailureSignal × Phase Chunk)}
    (h : ∀ frame ∈ frames, frame.2.Outside ∨ frame.2.Above) :
    (frames.map fun frame => frame.2.unaware entered).sum = 0 := by
  refine List.sum_eq_zero fun count hcount => ?_
  obtain ⟨⟨signal, p⟩, hframe, rfl⟩ := List.mem_map.mp hcount
  have hp := h _ hframe
  cases p with
  | exchange | wait => exact hp.elim False.elim False.elim
  | _ => rfl

omit [Fintype T] [DecidableEq T] in
/-- At most one activation on a thread waits. -/
theorem threadUnaware_le {thread : Thread FailureSignal Bool (Phase Chunk)} (entered : Bool)
    (h : Stacked thread.locals thread.frames) : threadUnaware entered thread ≤ 1 := by
  rw [threadUnaware]
  cases hlocals : thread.locals with
  | false =>
    rw [hlocals] at h
    rw [sum_unaware_eq_zero fun frame hframe => .inl (stacked_false.mp h frame hframe)]
    exact Nat.zero_le 1
  | true =>
    rw [hlocals] at h
    obtain ⟨above, inside, below, hframes, habove, -, hbelow⟩ := stacked_true.mp h
    rw [hframes, List.map_append, List.map_cons, List.sum_append, List.sum_cons,
      sum_unaware_eq_zero fun frame hframe => .inr (habove frame hframe),
      sum_unaware_eq_zero fun frame hframe => .inl (hbelow frame hframe)]
    rw [Nat.zero_add, Nat.add_zero]
    cases inside.2 <;> simp only [Phase.unaware] <;> first | omega | (split <;> omega)

omit [DecidableEq T] in
theorem unaware_le (h : w.Each fun _ => Stacked) : unaware w ≤ Fintype.card T := by
  rw [unaware, ← Finset.card_univ, Finset.card_eq_sum_ones]
  exact Finset.sum_le_sum fun t _ => threadUnaware_le _ (h t)

/-- An activation that waits sees whether the dump is owned. -/
theorem unaware_setThread {t : T} {signal : FailureSignal} {p next : Phase Chunk}
    {rest : List (FailureSignal × Phase Chunk)}
    (hframes : (w.threads t).frames = (signal, p) :: rest)
    (hnext : next.unaware w.shared.entered < p.unaware w.shared.entered)
    (exiting : Option FailureSignal) :
    unaware (w.setThread t ⟨(w.threads t).locals, (signal, next) :: rest, exiting⟩) <
      unaware w := by
  have hsum := sum_update (fun _ => threadUnaware w.shared.entered) w.threads t
    ⟨(w.threads t).locals, (signal, next) :: rest, exiting⟩
  have hbefore : threadUnaware w.shared.entered (w.threads t) = p.unaware w.shared.entered +
      (rest.map fun frame => frame.2.unaware w.shared.entered).sum := by
    rw [threadUnaware, hframes]
    rfl
  have hafter : threadUnaware w.shared.entered
      ⟨(w.threads t).locals, (signal, next) :: rest, exiting⟩ =
        next.unaware w.shared.entered + (rest.map fun frame =>
          frame.2.unaware w.shared.entered).sum := rfl
  change ∑ other, threadUnaware w.shared.entered (Function.update w.threads t _ other) <
    ∑ other, threadUnaware w.shared.entered (w.threads other)
  omega

omit [Fintype T] [DecidableEq T] in
/-- A useful step of an activation leaves less to do, or it is one that sees whether the dump is
owned. -/
theorem useful_run (dump : T → FailureSignal → List Chunk)
    (hflush : ∀ t signal, flushReturns t signal = true) {t : T} {signal : FailureSignal}
    {p : Phase Chunk} {rest : List (FailureSignal × Phase Chunk)} {fails : Bool}
    (huseful : Useful w (.run t fails)) (hframes : (w.threads t).frames = (signal, p) :: rest) :
    let result := (FailureSignalHandler dump flushReturns).next t signal fails
      (w.threads t).locals w.shared p
    left (dump t signal).length result.2.2 + raised result.2.2 < p.cost (dump t signal).length ∨
      ∃ next : Phase Chunk, result = ((w.threads t).locals, w.shared, .goto next) ∧
        next.cost (dump t signal).length = p.cost (dump t signal).length ∧
        next.unaware w.shared.entered < p.unaware w.shared.entered := by
  have hframes' : w.frames t = (signal, p) :: rest := hframes
  rw [Useful, hframes'] at huseful
  cases p with
  | start =>
    cases h : (w.threads t).locals with
    | false => simp [FailureSignalHandler, left, raised, Phase.cost]
    | true =>
      simp only [FailureSignalHandler, left, raised, Phase.cost, if_true]
      omega
  | exchange =>
    cases h : w.shared.entered with
    | true => exact .inr ⟨.wait, by simp [FailureSignalHandler, h], rfl, by simp [Phase.unaware]⟩
    | false =>
      have hfails : fails = false := huseful.resolve_left (by rw [h]; decide)
      left
      simp [FailureSignalHandler, h, hfails, left, raised, Phase.cost]
  | wait =>
    have h : w.shared.entered = false := huseful
    exact .inr ⟨.exchange, by simp [FailureSignalHandler, h], rfl, by simp [Phase.unaware, h]⟩
  | handle remaining => cases remaining <;> simp [FailureSignalHandler, left, raised, Phase.cost]
  | flush =>
    have hfails : fails = false := huseful
    simp [FailureSignalHandler, hflush, hfails, left, raised, Phase.cost]
  | kill reentered => cases reentered <;> simp [FailureSignalHandler, left, raised, Phase.cost]
  | _ => simp [FailureSignalHandler, left, raised, Phase.cost]

/-! ### The end of the handlers -/

omit [DecidableEq T] in
theorem rank_lt (hstacked : w'.Each fun _ => Stacked)
    (h : cost dump w' < cost dump w ∨ cost dump w' ≤ cost dump w ∧ unaware w' < unaware w) :
    rank dump w' < rank dump w := by
  have hle := unaware_le hstacked
  rw [rank, rank]
  rcases h with hlt | ⟨hcost, hunaware⟩
  · have hmul : (cost dump w' + 1) * (Fintype.card T + 1) ≤ cost dump w * (Fintype.card T + 1) :=
      Nat.mul_le_mul_right _ hlt
    rw [Nat.add_mul] at hmul
    omega
  · have hmul : cost dump w' * (Fintype.card T + 1) ≤ cost dump w * (Fintype.card T + 1) :=
      Nat.mul_le_mul_right _ hcost
    omega

theorem cost_step {event : Event T FailureSignal}
    (hflush : ∀ t signal, flushReturns t signal = true) (huseful : Useful w event)
    (hsettled : w.alive = true → ∀ t, w.Settled ignored Phase.Reset Phase.Sent (w.threads t))
    (hstep : step (FailureSignalHandler dump flushReturns) ignored w event = some w') :
    cost dump w' < cost dump w ∨ cost dump w' ≤ cost dump w ∧ unaware w' < unaware w := by
  cases step_eq_some.mp hstep with
  | send | crash | fault => exact huseful.elim
  | @drop t signal _ hpending _ hdefault _ =>
    left
    have hcost := cost_setPending dump w signal false
    simp only [signalCost, hpending, hdefault, if_true, Bool.false_eq_true, if_false] at hcost
    omega
  | kill halive =>
    left
    simp [cost, Process.die, halive]
  | @deliver t signal _ hpending _ hdefault =>
    left
    have hcost := cost_setPending dump w signal false
    have hpush := cost_push dump flushReturns (w.setPending signal false) t signal
    have hsize : (dump t signal).length ≤ ∑ t, (dump t signal).length :=
      Finset.single_le_sum (f := fun t => (dump t signal).length) (fun _ _ => Nat.zero_le _)
        (Finset.mem_univ t)
    simp only [signalCost, hpending, hdefault, if_true, Bool.false_eq_true, if_false] at hcost
    omega
  | @run t fails signal p rest halive hexiting hframes =>
    have hreset := ((hsettled halive t).frames (signal, p) (hframes ▸ List.mem_cons_self ..)).1
    have hadvance := cost_advance dump flushReturns fails hexiting hframes hreset
    dsimp only at hadvance
    rcases useful_run dump hflush huseful hframes with hlt | ⟨next, hresult, hnext, hunaware⟩
    · left
      omega
    · right
      rw [hresult] at hadvance
      dsimp only [left, raised] at hadvance
      refine ⟨by omega, ?_⟩
      have hw' : w.advance (FailureSignalHandler dump flushReturns) t signal p rest fails =
          w.setThread t ⟨(w.threads t).locals, (signal, next) :: rest, none⟩ := by
        simp only [Process.advance, hresult]
        rfl
      rw [hw']
      exact unaware_setThread hframes hunaware none
  | @resume t signal _ hexiting _ =>
    left
    have hcost := cost_setThread dump w t ⟨(w.threads t).locals, (w.threads t).frames, none⟩
    have hthread : threadCost dump t (w.threads t) =
        threadCost dump t ⟨(w.threads t).locals, (w.threads t).frames, none⟩ + 1 := by
      simp [threadCost, hexiting]
    change cost dump
      (w.setThread t ⟨(w.threads t).locals, (w.threads t).frames, none⟩) < cost dump w
    omega

/-- The process is in a state of a run. -/
def Reachable (dump : T → FailureSignal → List Chunk)
    (flushReturns : T → FailureSignal → Bool) (ignored : FailureSignal → Bool)
    (w : Process T FailureSignal Bool (Shared Chunk) (Phase Chunk)) : Prop :=
  ∃ events, Transition.run (step (FailureSignalHandler dump flushReturns) ignored)
    (initial T Chunk) events = some w

omit [Fintype T] in
theorem Reachable.step (h : Reachable dump flushReturns ignored w) {event : Event T FailureSignal}
    (hstep : Interrupts.step (FailureSignalHandler dump flushReturns) ignored w event = some w') :
    Reachable dump flushReturns ignored w' := by
  obtain ⟨events, hrun⟩ := h
  exact ⟨events ++ [event], Transition.run_concat_eq_some.mpr ⟨w, hrun, hstep⟩⟩

/-- Useful steps lower the rank. -/
theorem rank_step {event : Event T FailureSignal}
    (hflush : ∀ t signal, flushReturns t signal = true) (huseful : Useful w event)
    (h : Reachable dump flushReturns ignored w)
    (hstep : step (FailureSignalHandler dump flushReturns) ignored w event = some w') :
    rank dump w' < rank dump w := by
  obtain ⟨events', hrun'⟩ := h.step hstep
  obtain ⟨events, hrun⟩ := h
  exact rank_lt (exclusive_run hrun').2.1
    (cost_step hflush huseful (settled_run (reraises dump flushReturns) hrun) hstep)

/-- An activation is left only if a useful step can be taken. -/
theorem exists_useful (h : Reachable dump flushReturns ignored w) (halive : w.alive = true) {t : T}
    (ht : w.frames t ≠ [] ∨ (w.threads t).exiting ≠ none) :
    ∃ event w', Useful w event ∧ step (FailureSignalHandler dump flushReturns) ignored w event =
      some w' := by
  obtain ⟨events, hrun⟩ := h
  by_cases hexiting : ∃ t, (w.threads t).exiting ≠ none
  · -- The thread whose handler has returned goes on, or takes a signal before that.
    obtain ⟨t, hexiting⟩ := hexiting
    obtain ⟨returned, hreturned⟩ := Option.ne_none_iff_exists'.mp hexiting
    by_cases hpending : ∀ signal, w.pending signal = true → signal ∈ (w.threads t).blocked
    · exact ⟨.resume t, _, trivial, step_eq_some.mpr (.resume halive hreturned hpending)⟩
    · obtain ⟨signal, hsignal⟩ := not_forall.mp hpending
      obtain ⟨hsignal, hblocked⟩ := Classical.not_imp.mp hsignal
      cases hdefault : w.isDefault signal with
      | false =>
        exact ⟨.deliver t signal, _, trivial,
          step_eq_some.mpr (.deliver halive hsignal hblocked hdefault)⟩
      | true =>
        cases hignored : ignored signal with
        | false =>
          exact ⟨.deliver t signal, _, trivial,
            step_eq_some.mpr (.kill halive hsignal hblocked hdefault hignored)⟩
        | true =>
          exact ⟨.deliver t signal, _, trivial,
            step_eq_some.mpr (.drop halive hsignal hblocked hdefault hignored)⟩
  · have hnone : ∀ t, (w.threads t).exiting = none := fun t => not_not.mp (not_exists.mp hexiting t)
    replace ht := ht.resolve_right (not_not_intro (hnone t))
    obtain ⟨⟨signal, p⟩, rest, hframes⟩ := List.exists_cons_of_ne_nil ht
    by_cases huseful : Useful w (.run t false)
    · exact ⟨.run t false, _, huseful, step_eq_some.mpr (.run halive (hnone t) hframes)⟩
    · -- It waits while the dump is owned, so the thread of the owner can go on.
      have hentered : w.shared.entered = true := by
        rw [Useful, hframes] at huseful
        cases p with
        | exchange => exact absurd (.inr rfl) huseful
        | wait => exact (Bool.not_eq_false _).mp huseful
        | flush => exact absurd rfl huseful
        | _ => exact absurd trivial huseful
      obtain ⟨owner, frame, hframe, howns⟩ := exists_owner hrun hentered
      obtain ⟨⟨signal', p'⟩, rest', hframes'⟩ :=
        List.exists_cons_of_ne_nil (List.ne_nil_of_mem hframe)
      refine ⟨.run owner false, _, ?_, step_eq_some.mpr (.run halive (hnone owner) hframes')⟩
      have hstacked := (exclusive_run hrun).2.1 owner
      change Stacked _ (w.frames owner) at hstacked
      rw [hframes'] at hstacked hframe
      rw [Useful, hframes']
      -- An activation that waits has none below it that owns the dump, and does not own it itself.
      have hwait : p'.Inside → ¬ p'.Owns → False := fun hinside hnot =>
        (List.mem_cons.mp hframe).elim (fun heq => hnot (by rwa [heq] at howns))
          fun hmem => stacked_inside hstacked hinside frame hmem howns
      cases p' with
      | exchange => exact (hwait trivial id).elim
      | wait => exact (hwait trivial id).elim
      | flush => exact rfl
      | _ => trivial

/-- If the flush of the log files returns, every run of useful steps ends, and when no useful step
is left, all handlers have returned or the process is dead. -/
theorem handlers_finish {events : List (Event T FailureSignal)}
    (hflush : ∀ t signal, flushReturns t signal = true)
    (hrun : Transition.run (step (FailureSignalHandler dump flushReturns) ignored) (initial T Chunk)
      events = some w) :
    ∃ bound, ∀ more w', Transition.Along (step (FailureSignalHandler dump flushReturns) ignored)
      Useful w more →
      Transition.run (step (FailureSignalHandler dump flushReturns) ignored) w more = some w' →
        more.length ≤ bound ∧
        ((∀ event, Useful w' event →
          step (FailureSignalHandler dump flushReturns) ignored w' event = none) →
          w'.alive = false ∨ ∀ t, w'.frames t = [] ∧ (w'.threads t).exiting = none) := by
  have hstep : ∀ w event w', Useful w event → Reachable dump flushReturns ignored w →
      step (FailureSignalHandler dump flushReturns) ignored w event = some w' →
        Reachable dump flushReturns ignored w' ∧ rank dump w' < rank dump w :=
    fun w event w' huseful h hstep => ⟨h.step hstep, rank_step hflush huseful h hstep⟩
  refine ⟨rank dump w, fun more w' huseful hmore => ⟨?_, fun hnone => ?_⟩⟩
  · have hlength := Transition.rank_add_length_le hstep huseful ⟨events, hrun⟩ hmore
    omega
  · have hreachable : Reachable dump flushReturns ignored w' :=
      Transition.along_invariant (fun w event w' huseful h hs => (hstep w event w' huseful h hs).1)
        huseful ⟨events, hrun⟩ hmore
    by_contra hcontra
    rw [not_or, Bool.not_eq_false, not_forall] at hcontra
    obtain ⟨halive, t, ht⟩ := hcontra
    obtain ⟨event, w'', huseful, hw''⟩ := exists_useful hreachable halive (not_and_or.mp ht)
    rw [hnone event huseful] at hw''
    cases hw''

theorem handlers_finish_waiting : ∃ w, Transition.run
      (step (FailureSignalHandler (fun (t : Bool) _ => [t, t]) fun _ _ => true)
        fun _ => true) (initial Bool Bool)
      [.fault true .SIGSEGV, .run true false, .send .SIGTERM, .run true false,
        .deliver true .SIGTERM] =
        some w ∧
      ∃ bound, ∀ more w', Transition.Along
        (step (FailureSignalHandler (fun (t : Bool) _ => [t, t]) fun _ _ => true)
        fun _ => true) Useful w more →
        Transition.run (step (FailureSignalHandler (fun (t : Bool) _ => [t, t]) fun _ _ => true)
        fun _ => true) w more =
          some w' →
        more.length ≤ bound ∧
        ((∀ event, Useful w' event →
            step (FailureSignalHandler (fun (t : Bool) _ => [t, t]) fun _ _ => true)
              (fun _ => true) w' event = none) →
          w'.alive = false ∨ ∀ t, w'.frames t = [] ∧ (w'.threads t).exiting = none) := by
  obtain ⟨w, hw⟩ : ∃ w, Transition.run
      (step (FailureSignalHandler (fun (t : Bool) _ => [t, t]) fun _ _ => true)
        fun _ => true) (initial Bool Bool)
      [.fault true .SIGSEGV, .run true false, .send .SIGTERM, .run true false,
        .deliver true .SIGTERM] =
        some w := ⟨_, rfl⟩
  exact ⟨w, hw, handlers_finish (fun _ _ => rfl) hw⟩

end Signals

end NgLog
