import Mathlib.Data.Fintype.Defs
import Mathlib.Data.List.Nodup
import Mathlib.Logic.Function.Basic
import NgLog.Support.Transition

/-!
# Signal handlers

A process of any number of threads that handle signals. A signal interrupts a thread between any two
steps, also of a handler, which goes on when the handler of the signal returns. While a handler
runs, its signal is blocked on the thread. A signal that is pending is delivered to a thread on
which it is not blocked: either its handler starts, or the default action is taken, which ends the
process unless it is ignored. When a handler returns, the signals that this unblocks are delivered
before the thread goes on.

A fault is a signal that a thread brings about itself. It is not made pending: if it is blocked, or
if it has no handler, the process ends.

## Main definitions

* `Code` — what a handler does in a step
* `Process`, `Event`, `step` — the process and its steps
* `Keeps` — a property of the handlers on a thread that every step keeps
* `Reraises` — handlers that put the default action back and send their signal again

## Main results

* `Keeps.step` — what each step of a handler keeps, every step of the process keeps
* `keeps_distinct` — the handlers that run on a thread are for different signals
* `Reraises.not_resume` — the code that such a handler has interrupted does not go on
-/

namespace NgLog

namespace Interrupts

variable {T N L S P : Type*}

/-- What a step of a handler does beside assigning variables. Its signal is the one that it
handles. -/
inductive Effect (P : Type*)
  | goto (next : P)
  | setDefault (next : P)
  | raise (next : P)
  | finish

/-- The code of the handlers. A step depends on the thread, the signal, the variables of the thread
and the shared ones. It may fail for no reason that is modelled: an atomic operation, or one that
has not yet come to its end. -/
structure Code (T N L S P : Type*) where
  start : P
  next : T → N → Bool → L → S → P → L × S × Effect P

/-- A thread: its variables, the handlers that run on it, the innermost first, and the signal whose
handler has just returned. -/
structure Thread (N L P : Type*) where
  locals : L
  frames : List (N × P)
  exiting : Option N

/-- The signals that are blocked on a thread. -/
def Thread.blocked (thread : Thread N L P) : List N := thread.frames.map Prod.fst

/-- The state of a process. -/
structure Process (T N L S P : Type*) where
  shared : S
  isDefault : N → Bool
  pending : N → Bool
  threads : T → Thread N L P
  alive : Bool

/-- No handler has run. -/
def Process.init (locals : L) (shared : S) : Process T N L S P where
  shared := shared
  isDefault := fun _ => false
  pending := fun _ => false
  threads := fun _ => ⟨locals, [], none⟩
  alive := true

/-- What happens next. -/
inductive Event (T N : Type*)
  | send (signal : N)
  | fault (thread : T) (signal : N)
  | deliver (thread : T) (signal : N)
  | run (thread : T) (fails : Bool)
  | resume (thread : T)

/-- The handlers of a thread after a step of the innermost one. -/
def Effect.frames (signal : N) (rest : List (N × P)) : Effect P → List (N × P)
  | .goto next | .setDefault next | .raise next => (signal, next) :: rest
  | .finish => rest

/-- A handler that returns is remembered until the thread goes on. -/
def Effect.exiting (signal : N) : Effect P → Option N
  | .finish => some signal
  | _ => none

section Step

variable [DecidableEq T] [DecidableEq N]

/-- The process ends. -/
def Process.die (w : Process T N L S P) : Process T N L S P := { w with alive := false }

/-- A signal becomes pending, or is taken. -/
def Process.setPending (w : Process T N L S P) (signal : N) (pending : Bool) : Process T N L S P :=
  { w with pending := Function.update w.pending signal pending }

/-- A thread changes. -/
def Process.setThread (w : Process T N L S P) (t : T) (thread : Thread N L P) :
    Process T N L S P :=
  { w with threads := Function.update w.threads t thread }

/-- The handler of a signal starts on a thread. -/
def Process.push (code : Code T N L S P) (w : Process T N L S P) (t : T) (signal : N) :
    Process T N L S P :=
  w.setThread t { w.threads t with frames := (signal, code.start) :: (w.threads t).frames }

/-- What an effect does to the signals. -/
def Process.apply (w : Process T N L S P) (signal : N) : Effect P → Process T N L S P
  | .setDefault _ => { w with isDefault := Function.update w.isDefault signal true }
  | .raise _ => w.setPending signal true
  | _ => w

/-- A step of the innermost handler of a thread. -/
def Process.advance (code : Code T N L S P) (w : Process T N L S P) (t : T) (signal : N) (p : P)
    (rest : List (N × P)) (fails : Bool) : Process T N L S P :=
  let result := code.next t signal fails (w.threads t).locals w.shared p
  { w with shared := result.2.1 }.apply signal result.2.2 |>.setThread t
    ⟨result.1, result.2.2.frames signal rest, result.2.2.exiting signal⟩

variable [Fintype N]

/-- One step of the process. -/
def step (code : Code T N L S P) (ignored : N → Bool) (w : Process T N L S P) (event : Event T N) :
    Option (Process T N L S P) :=
  if w.alive then
    match event with
    | .send signal => some (w.setPending signal true)
    | .fault t signal =>
      if (w.threads t).exiting.isSome then none
      else if w.isDefault signal ∨ signal ∈ (w.threads t).blocked then some w.die
      else some (w.push code t signal)
    | .deliver t signal =>
      if w.pending signal ∧ signal ∉ (w.threads t).blocked then
        if w.isDefault signal then
          if ignored signal then some (w.setPending signal false) else some w.die
        else some ((w.setPending signal false).push code t signal)
      else none
    | .run t fails =>
      match (w.threads t).exiting, (w.threads t).frames with
      | none, (signal, p) :: rest => some (w.advance code t signal p rest fails)
      | _, _ => none
    | .resume t =>
      if (w.threads t).exiting.isSome ∧
          ∀ signal, w.pending signal → signal ∈ (w.threads t).blocked then
        some (w.setThread t { w.threads t with exiting := none })
      else none
  else none

/-- What `step` can do. -/
inductive Step (code : Code T N L S P) (ignored : N → Bool) (w : Process T N L S P) :
    Event T N → Process T N L S P → Prop
  | send {signal} (halive : w.alive = true) : Step code ignored w (.send signal)
      (w.setPending signal true)
  | crash {t signal} (halive : w.alive = true) (hexiting : (w.threads t).exiting = none)
      (hsignal : w.isDefault signal = true ∨ signal ∈ (w.threads t).blocked) :
      Step code ignored w (.fault t signal) w.die
  | fault {t signal} (halive : w.alive = true) (hexiting : (w.threads t).exiting = none)
      (hdefault : w.isDefault signal = false) (hblocked : signal ∉ (w.threads t).blocked) :
      Step code ignored w (.fault t signal) (w.push code t signal)
  | drop {t signal} (halive : w.alive = true) (hpending : w.pending signal = true)
      (hblocked : signal ∉ (w.threads t).blocked) (hdefault : w.isDefault signal = true)
      (hignored : ignored signal = true) :
      Step code ignored w (.deliver t signal) (w.setPending signal false)
  | kill {t signal} (halive : w.alive = true) (hpending : w.pending signal = true)
      (hblocked : signal ∉ (w.threads t).blocked) (hdefault : w.isDefault signal = true)
      (hignored : ignored signal = false) : Step code ignored w (.deliver t signal) w.die
  | deliver {t signal} (halive : w.alive = true) (hpending : w.pending signal = true)
      (hblocked : signal ∉ (w.threads t).blocked) (hdefault : w.isDefault signal = false) :
      Step code ignored w (.deliver t signal) ((w.setPending signal false).push code t signal)
  | run {t fails signal p rest} (halive : w.alive = true) (hexiting : (w.threads t).exiting = none)
      (hframes : (w.threads t).frames = (signal, p) :: rest) :
      Step code ignored w (.run t fails) (w.advance code t signal p rest fails)
  | resume {t signal} (halive : w.alive = true) (hexiting : (w.threads t).exiting = some signal)
      (hpending : ∀ other, w.pending other = true → other ∈ (w.threads t).blocked) :
      Step code ignored w (.resume t) (w.setThread t { w.threads t with exiting := none })

variable {code : Code T N L S P} {ignored : N → Bool} {w w' : Process T N L S P} {event : Event T N}

theorem step_eq_some : step code ignored w event = some w' ↔ Step code ignored w event w' := by
  constructor
  · intro h
    rw [step.eq_def] at h
    split at h
    case isFalse => cases h
    rename_i halive
    cases event with
    | send signal =>
      cases h
      exact .send halive
    | fault t signal =>
      dsimp only at h
      split_ifs at h with hexiting hsignal
      · cases h
        exact .crash halive (Option.not_isSome_iff_eq_none.mp hexiting) hsignal
      · cases h
        rw [not_or, Bool.not_eq_true] at hsignal
        exact .fault halive (Option.not_isSome_iff_eq_none.mp hexiting) hsignal.1 hsignal.2
    | deliver t signal =>
      dsimp only at h
      split_ifs at h with hpending hdefault hignored
      · cases h
        exact .drop halive hpending.1 hpending.2 hdefault hignored
      · cases h
        exact .kill halive hpending.1 hpending.2 hdefault (Bool.not_eq_true _ ▸ hignored)
      · cases h
        exact .deliver halive hpending.1 hpending.2 (Bool.not_eq_true _ ▸ hdefault)
    | run t fails =>
      dsimp only at h
      split at h
      · rename_i hexiting hframes
        cases h
        exact .run halive hexiting hframes
      · cases h
    | resume t =>
      dsimp only at h
      split_ifs at h with hcondition
      cases h
      obtain ⟨signal, hexiting⟩ := Option.isSome_iff_exists.mp hcondition.1
      exact .resume halive hexiting hcondition.2
  · intro h
    cases h with
    | send halive => simp [step, halive]
    | crash halive hexiting hsignal => simp [step, halive, hexiting, hsignal]
    | fault halive hexiting hdefault hblocked => simp [step, halive, hexiting, hdefault, hblocked]
    | drop halive hpending hblocked hdefault hignored =>
      simp [step, halive, hpending, hblocked, hdefault, hignored]
    | kill halive hpending hblocked hdefault hignored =>
      simp [step, halive, hpending, hblocked, hdefault, hignored]
    | deliver halive hpending hblocked hdefault => simp [step, halive, hpending, hblocked, hdefault]
    | run halive hexiting hframes => simp [step, halive, hexiting, hframes]
    | resume halive hexiting hpending =>
      simp only [step, halive, if_true, hexiting, Option.isSome_some, true_and]
      exact if_pos hpending

end Step

/-! ### The handlers on a thread -/

theorem threads_setThread [DecidableEq T] (w : Process T N L S P) (t : T) (thread : Thread N L P) :
    (w.setThread t thread).threads = Function.update w.threads t thread := rfl

@[simp] theorem threads_apply [DecidableEq N] (w : Process T N L S P) (signal : N)
    (effect : Effect P) : (w.apply signal effect).threads = w.threads := by
  cases effect <;> rfl

@[simp] theorem alive_apply [DecidableEq N] (w : Process T N L S P) (signal : N)
    (effect : Effect P) : (w.apply signal effect).alive = w.alive := by
  cases effect <;> rfl

theorem mem_frames {signal : N} {rest : List (N × P)} {effect : Effect P} {frame : N × P} :
    frame ∈ effect.frames signal rest ↔ frame ∈ effect.frames signal [] ∨ frame ∈ rest := by
  cases effect with
  | finish => exact ⟨.inr, fun h => h.resolve_left List.not_mem_nil⟩
  | goto | setDefault | raise => exact List.mem_cons.trans (or_congr_left List.mem_singleton.symm)

theorem fst_of_mem_frames {signal : N} {effect : Effect P} {frame : N × P}
    (h : frame ∈ effect.frames signal []) : frame.1 = signal := by
  cases effect with
  | finish => cases h
  | goto | setDefault | raise => exact congrArg Prod.fst (List.mem_singleton.mp h)

/-- The handlers that run on each thread. -/
def Process.frames (w : Process T N L S P) (t : T) : List (N × P) := (w.threads t).frames

theorem frames_setThread [DecidableEq T] (w : Process T N L S P) (t : T) (thread : Thread N L P) :
    (w.setThread t thread).frames = Function.update w.frames t thread.frames :=
  funext fun other => Function.apply_update (fun _ => Thread.frames) w.threads t thread other

/-- When a thread goes on, its handlers are as before. -/
theorem frames_resume [DecidableEq T] (w : Process T N L S P) (t : T) (exiting : Option N) :
    (w.setThread t { w.threads t with exiting := exiting }).frames = w.frames := by
  rw [frames_setThread]
  exact Function.update_eq_self t w.frames

theorem frames_push [DecidableEq T] (code : Code T N L S P) (w : Process T N L S P) (t : T)
    (signal : N) :
    (w.push code t signal).frames = Function.update w.frames t
      ((signal, code.start) :: w.frames t) :=
  frames_setThread ..

theorem frames_apply [DecidableEq N] (w : Process T N L S P) (signal : N) (effect : Effect P) :
    (w.apply signal effect).frames = w.frames :=
  funext fun t => congrArg (fun threads => (threads t).frames) (threads_apply w signal effect)

theorem frames_advance [DecidableEq T] [DecidableEq N] (code : Code T N L S P)
    (w : Process T N L S P) (t : T) (signal : N) (p : P) (rest : List (N × P)) (fails : Bool) :
    (w.advance code t signal p rest fails).frames = Function.update w.frames t
      ((code.next t signal fails (w.threads t).locals w.shared p).2.2.frames signal rest) := by
  rw [Process.advance, frames_setThread, frames_apply]
  rfl

theorem isDefault_advance [DecidableEq T] [DecidableEq N] (code : Code T N L S P)
    (w : Process T N L S P) (t : T) (signal : N) (p : P) (rest : List (N × P)) (fails : Bool)
    (other : N) (hother : w.isDefault other = true) :
    (w.advance code t signal p rest fails).isDefault other = true := by
  simp only [Process.advance, Process.setThread]
  cases (code.next t signal fails (w.threads t).locals w.shared p).2.2 with
  | goto | raise | finish => exact hother
  | setDefault =>
    by_cases heq : other = signal
    · rw [heq]
      exact Function.update_self ..
    · exact (Function.update_of_ne heq ..).trans hother

/-- A step that puts the default action of its signal back. -/
theorem isDefault_advance_setDefault [DecidableEq T] [DecidableEq N] {code : Code T N L S P}
    {w : Process T N L S P} {t : T} {signal : N} {p next : P} {rest : List (N × P)} {fails : Bool}
    (h : (code.next t signal fails (w.threads t).locals w.shared p).2.2 = .setDefault next) :
    (w.advance code t signal p rest fails).isDefault signal = true := by
  simp only [Process.advance, h]
  exact Function.update_self ..

@[simp] theorem shared_advance [DecidableEq T] [DecidableEq N] (code : Code T N L S P)
    (w : Process T N L S P) (t : T) (signal : N) (p : P) (rest : List (N × P)) (fails : Bool) :
    (w.advance code t signal p rest fails).shared =
      (code.next t signal fails (w.threads t).locals w.shared p).2.1 := by
  simp only [Process.advance, Process.setThread]
  cases (code.next t signal fails (w.threads t).locals w.shared p).2.2 <;> rfl

/-- A property of the variables and the handlers of a thread that every step keeps. -/
structure Keeps (code : Code T N L S P) (K : T → L → List (N × P) → Prop) : Prop where
  push : ∀ t locals frames signal, signal ∉ frames.map Prod.fst → K t locals frames →
    K t locals ((signal, code.start) :: frames)
  next : ∀ t fails shared locals signal p rest, K t locals ((signal, p) :: rest) →
    K t (code.next t signal fails locals shared p).1
      ((code.next t signal fails locals shared p).2.2.frames signal rest)

/-- A property of the variables and the handlers holds of all threads. -/
def Process.Each (w : Process T N L S P) (K : T → L → List (N × P) → Prop) : Prop :=
  ∀ t, K t (w.threads t).locals (w.threads t).frames

theorem map_fst_frames (signal : N) (p : P) (rest : List (N × P)) (effect : Effect P) :
    (effect.frames signal rest).map Prod.fst = ((signal, p) :: rest).map Prod.fst ∨
      (effect.frames signal rest).map Prod.fst = rest.map Prod.fst := by
  cases effect with
  | finish => exact .inr rfl
  | goto | setDefault | raise => exact .inl rfl

/-- Since its signal is blocked, no second handler for it starts on the thread. -/
theorem keeps_distinct (code : Code T N L S P) :
    Keeps code fun _ _ frames => (frames.map Prod.fst).Nodup where
  push _ _ _ _ hsignal hframes := List.nodup_cons.mpr ⟨hsignal, hframes⟩
  next t fails shared locals signal p rest hframes := by
    rcases map_fst_frames signal p rest (code.next t signal fails locals shared p).2.2 with
      heq | heq
    · rw [heq]
      exact hframes
    · rw [heq]
      exact (List.nodup_cons.mp hframes).2

variable [DecidableEq T]

theorem Process.Each.setThread {K : T → L → List (N × P) → Prop} {w : Process T N L S P}
    (hw : w.Each K) {t : T} {thread : Thread N L P} (hthread : K t thread.locals thread.frames) :
    (w.setThread t thread).Each K := by
  intro other
  rw [threads_setThread]
  by_cases hother : other = t
  · rw [hother, Function.update_self]
    exact hthread
  · rw [Function.update_of_ne hother]
    exact hw other

variable [DecidableEq N] [Fintype N] {code : Code T N L S P} {ignored : N → Bool}
  {w w' : Process T N L S P} {event : Event T N} {K : T → L → List (N × P) → Prop}

theorem Keeps.step (h : Keeps code K) (hw : w.Each K)
    (hstep : Interrupts.step code ignored w event = some w') : w'.Each K := by
  cases step_eq_some.mp hstep with
  | send | crash | drop | kill => exact hw
  | fault _ _ _ hblocked => exact hw.setThread (h.push _ _ _ _ hblocked (hw _))
  | @deliver t signal _ _ hblocked _ =>
    have hpending : (w.setPending signal false).Each K := hw
    exact hpending.setThread (h.push _ _ _ _ hblocked (hw t))
  | @run t fails signal p rest _ _ hframes =>
    have happly : Process.Each (Process.apply { w with
        shared := (code.next t signal fails (w.threads t).locals w.shared p).2.1 } signal
        (code.next t signal fails (w.threads t).locals w.shared p).2.2) K := by
      intro other
      rw [threads_apply]
      exact hw other
    exact happly.setThread (h.next _ _ _ _ _ _ _ (hframes ▸ hw t))
  | @resume t _ _ _ _ => exact hw.setThread (hw t)

/-! ### Handlers that send their signal again -/

omit [DecidableEq T] [DecidableEq N] [Fintype N]

/-- What a step does to the signal of its handler, which has put the default action back at the
points of `Reset` and has sent the signal at those of `Sent`. -/
def Effect.Lawful (Reset Sent : P → Prop) (p : P) : Effect P → Prop
  | .goto next => (Reset next → Reset p) ∧ (Sent next → Sent p)
  | .setDefault next => Sent next → Sent p
  | .raise _ => Reset p
  | .finish => Sent p

/-- The handlers put the default action back and send their signal again before they return. -/
structure Reraises (code : Code T N L S P) (Reset Sent : P → Prop) : Prop where
  start : ¬ Reset code.start ∧ ¬ Sent code.start
  next : ∀ t signal fails locals shared p,
    (code.next t signal fails locals shared p).2.2.Lawful Reset Sent p

/-- The default action will be taken for a signal, unless it is ignored. -/
def Process.Due (ignored : N → Bool) (w : Process T N L S P) (signal : N) : Prop :=
  w.isDefault signal = true ∧ (ignored signal = true ∨ w.pending signal = true)

/-- What a handler has done to its signal. -/
def Process.FrameSettled (ignored : N → Bool) (Reset Sent : P → Prop) (w : Process T N L S P)
    (frame : N × P) : Prop :=
  (Reset frame.2 → w.isDefault frame.1 = true) ∧ (Sent frame.2 → w.Due ignored frame.1)

/-- What the handlers of a thread have done to their signals. -/
structure Process.Settled (ignored : N → Bool) (Reset Sent : P → Prop) (w : Process T N L S P)
    (thread : Thread N L P) : Prop where
  distinct : thread.blocked.Nodup
  frames : ∀ frame ∈ thread.frames, w.FrameSettled ignored Reset Sent frame
  exiting : ∀ signal, thread.exiting = some signal →
    w.Due ignored signal ∧ signal ∉ thread.blocked

variable {Reset Sent : P → Prop}

/-- From `w` to `w'` no default action is replaced, and no signal is taken for which one is due. -/
structure Process.Retains (ignored : N → Bool) (w w' : Process T N L S P) : Prop where
  isDefault : ∀ signal, w.isDefault signal = true → w'.isDefault signal = true
  due : ∀ signal, w.Due ignored signal → w'.Due ignored signal

theorem Process.Retains.settled (h : w.Retains ignored w') {thread : Thread N L P}
    (hthread : w.Settled ignored Reset Sent thread) : w'.Settled ignored Reset Sent thread where
  distinct := hthread.distinct
  frames frame hframe := ⟨fun hreset => h.isDefault _ ((hthread.frames frame hframe).1 hreset),
    fun hsent => h.due _ ((hthread.frames frame hframe).2 hsent)⟩
  exiting signal hsignal :=
    ⟨h.due _ (hthread.exiting signal hsignal).1, (hthread.exiting signal hsignal).2⟩

variable [DecidableEq N]

theorem retains_setPending {signal : N} {pending : Bool}
    (h : pending = true ∨ ignored signal = true ∨ w.isDefault signal = false) :
    w.Retains ignored (w.setPending signal pending) where
  isDefault _ hdefault := hdefault
  due other hdue := by
    refine ⟨hdue.1, ?_⟩
    by_cases hother : other = signal
    · rw [hother] at hdue ⊢
      rcases h with h | h | h
      · exact .inr ((Function.update_self ..).trans h)
      · exact .inl h
      · exact absurd (hdue.1.symm.trans h) (by decide)
    · refine hdue.2.imp_right fun hpending => ?_
      exact (Function.update_of_ne hother ..).trans hpending

theorem retains_apply (signal : N) (effect : Effect P) :
    w.Retains ignored (w.apply signal effect) := by
  cases effect with
  | goto | finish => exact ⟨fun _ h => h, fun _ h => h⟩
  | raise => exact retains_setPending (.inl rfl)
  | setDefault =>
    have hdefault : ∀ other, w.isDefault other = true →
        Function.update w.isDefault signal true other = true := by
      intro other hother
      by_cases heq : other = signal
      · rw [heq, Function.update_self]
      · rwa [Function.update_of_ne heq]
    exact ⟨hdefault, fun other hdue => ⟨hdefault other hdue.1, hdue.2⟩⟩

/-- Since a step of a handler is lawful, what it has done to its signal is as its new point says. -/
theorem settled_effect {effect : Effect P} {signal : N} {p : P} {rest : List (N × P)}
    {thread : Thread N L P} (locals : L) (heffect : effect.Lawful Reset Sent p)
    (hthread : w.Settled ignored Reset Sent thread)
    (hframes : thread.frames = (signal, p) :: rest) :
    (w.apply signal effect).Settled ignored Reset Sent
      ⟨locals, effect.frames signal rest, effect.exiting signal⟩ := by
  have hretains : w.Retains ignored (w.apply signal effect) := retains_apply signal effect
  have hold := hretains.settled hthread
  have hdistinct := hthread.distinct
  rw [Thread.blocked, hframes, List.map_cons, List.nodup_cons] at hdistinct
  have htop := hthread.frames (signal, p) (hframes ▸ List.mem_cons_self ..)
  have hrest : ∀ frame ∈ rest, (w.apply signal effect).FrameSettled ignored Reset Sent frame :=
    fun frame hframe => hold.frames frame (hframes ▸ List.mem_cons_of_mem _ hframe)
  cases effect with
  | goto next =>
    refine ⟨List.nodup_cons.mpr hdistinct, List.forall_mem_cons.mpr ⟨?_, hrest⟩, nofun⟩
    exact ⟨fun h => htop.1 (heffect.1 h), fun h => htop.2 (heffect.2 h)⟩
  | setDefault next =>
    refine ⟨List.nodup_cons.mpr hdistinct, List.forall_mem_cons.mpr ⟨?_, hrest⟩, nofun⟩
    exact ⟨fun _ => Function.update_self .., fun h => hretains.due _ (htop.2 (heffect h))⟩
  | raise next =>
    refine ⟨List.nodup_cons.mpr hdistinct, List.forall_mem_cons.mpr ⟨?_, hrest⟩, nofun⟩
    exact ⟨fun _ => htop.1 heffect, fun _ => ⟨htop.1 heffect, .inr (Function.update_self ..)⟩⟩
  | finish =>
    refine ⟨hdistinct.2, hrest, fun other hother => ?_⟩
    cases hother
    exact ⟨htop.2 heffect, hdistinct.1⟩

variable [DecidableEq T]

omit [DecidableEq N] in
theorem settled_setThread {thread : Thread N L P} {t : T}
    (h : ∀ t, w.Settled ignored Reset Sent (w.threads t))
    (hthread : w.Settled ignored Reset Sent thread) (other : T) :
    (w.setThread t thread).Settled ignored Reset Sent ((w.setThread t thread).threads other) := by
  have hretains : w.Retains ignored (w.setThread t thread) := ⟨fun _ h => h, fun _ h => h⟩
  rw [threads_setThread]
  by_cases hother : other = t
  · rw [hother, Function.update_self]
    exact hretains.settled hthread
  · rw [Function.update_of_ne hother]
    exact hretains.settled (h other)

omit [DecidableEq N] in
theorem settled_push (hcode : Reraises code Reset Sent) {t : T} {signal : N}
    (h : ∀ t, w.Settled ignored Reset Sent (w.threads t)) (hdefault : w.isDefault signal = false)
    (hblocked : signal ∉ (w.threads t).blocked) (other : T) :
    (w.push code t signal).Settled ignored Reset Sent ((w.push code t signal).threads other) := by
  refine settled_setThread h ⟨?_, ?_, ?_⟩ other
  · exact List.nodup_cons.mpr ⟨hblocked, (h t).distinct⟩
  · exact List.forall_mem_cons.mpr
      ⟨⟨fun h => absurd h hcode.start.1, fun h => absurd h hcode.start.2⟩,
      (h t).frames⟩
  · intro returned hreturned
    obtain ⟨hdue, hnot⟩ := (h t).exiting returned hreturned
    refine ⟨hdue, fun hmem => ?_⟩
    rcases List.mem_cons.mp hmem with heq | hmem
    · rw [heq] at hdue
      exact absurd (hdue.1.symm.trans hdefault) (by decide)
    · exact hnot hmem

variable [Fintype N]

/-- While the process lives, the default action is due for the signals of handlers that have sent
them again. -/
theorem settled_step (hcode : Reraises code Reset Sent)
    (h : w.alive = true → ∀ t, w.Settled ignored Reset Sent (w.threads t))
    (hstep : step code ignored w event = some w') :
    w'.alive = true → ∀ t, w'.Settled ignored Reset Sent (w'.threads t) := by
  cases step_eq_some.mp hstep with
  | send halive => exact fun _ t => (retains_setPending (.inl rfl)).settled (h halive t)
  | crash | kill => exact fun hdead => nomatch hdead
  | fault halive _ hdefault hblocked =>
    exact fun _ => settled_push hcode (h halive) hdefault hblocked
  | drop halive _ _ _ hignored =>
    exact fun _ t => (retains_setPending (.inr (.inl hignored))).settled (h halive t)
  | @deliver t signal halive _ hblocked hdefault =>
    exact fun _ => settled_push hcode (w := w.setPending signal false)
      (fun t => (retains_setPending (.inr (.inr hdefault))).settled (h halive t)) hdefault hblocked
  | @run t fails signal p rest halive _ hframes =>
    intro _
    have hshared : ∀ shared : S, w.Retains ignored { w with shared := shared } :=
      fun _ => ⟨fun _ h => h, fun _ h => h⟩
    refine settled_setThread (fun t => ?_)
      (settled_effect _ (hcode.next ..) ((hshared _).settled (h halive t))
      hframes)
    rw [threads_apply]
    exact (retains_apply _ _).settled ((hshared _).settled (h halive t))
  | @resume t returned halive _ _ =>
    exact fun _ => settled_setThread (h halive) ⟨(h halive t).distinct, (h halive t).frames, nofun⟩

theorem settled_run (hcode : Reraises code Reset Sent) {locals : L} {shared : S}
    {events : List (Event T N)}
    (hrun : Transition.run (step code ignored) (Process.init locals shared) events = some w) :
    w.alive = true → ∀ t, w.Settled ignored Reset Sent (w.threads t) := by
  refine Transition.run_invariant_all
    (I := fun w => w.alive = true → ∀ t, w.Settled ignored Reset Sent (w.threads t))
    (fun _ _ _ h hstep => settled_step hcode h hstep) ?_ hrun
  exact fun _ t => ⟨List.nodup_nil, nofun, nofun⟩

/-- When a handler has returned whose signal is not ignored, the code that it has interrupted does
not go on: the signal is delivered again, and the process ends. -/
theorem Reraises.not_resume (hcode : Reraises code Reset Sent) {locals : L} {shared : S}
    {events : List (Event T N)} {t : T} {signal : N}
    (hrun : Transition.run (step code ignored) (Process.init locals shared) events = some w)
    (halive : w.alive = true) (hexiting : (w.threads t).exiting = some signal)
    (hignored : ignored signal = false) :
    step code ignored w (.resume t) = none ∧
    step code ignored w (.deliver t signal) = some w.die := by
  obtain ⟨⟨hdefault, hpending⟩, hblocked⟩ :=
    (settled_run hcode hrun halive t).exiting signal hexiting
  replace hpending := hpending.resolve_left (Bool.not_eq_true _ ▸ hignored)
  refine ⟨?_, step_eq_some.mpr (.kill halive hpending hblocked hdefault hignored)⟩
  refine Option.eq_none_iff_forall_ne_some.mpr fun w' hstep => ?_
  cases step_eq_some.mp hstep with
  | resume _ _ hnone => exact hblocked (hnone signal hpending)

end Interrupts

end NgLog
