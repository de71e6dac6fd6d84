import NgLog.Support.Interrupts

/-!
# The failure signal handler

Any number of threads get failure signals, also while they handle one. The first activation of the
handler on a thread marks the thread, waits until it owns the dump, writes the dump, flushes the log
files, and sends the signal again under its default action. An activation on a marked thread does
not write and does not wait: it sends its signal again at once. An activation that is not the end of
the process, since the default action is ignored, gives the dump away again.

## Main definitions

* `FailureSignalHandler` — the handler
* `Stacked` — the activations on a thread
* `Exclusive` — who owns the dump, and what has been written

## Main results

* `activations_nest` — at most one activation on a thread can wait or write
* `dumps_whole` — in every interleaving the output is one whole dump after another
* `failure_not_resumed` — the interrupted program does not go on unless the signal is ignored
-/

namespace NgLog

namespace Signals

open Interrupts

/-- The signals that the handler is installed for. -/
inductive FailureSignal
  | SIGSEGV
  | SIGILL
  | SIGFPE
  | SIGABRT
  | SIGBUS
  | SIGTERM
  deriving DecidableEq

def kFailureSignals : List FailureSignal :=
  [.SIGSEGV, .SIGILL, .SIGFPE, .SIGABRT, .SIGBUS, .SIGTERM]

theorem nodup_kFailureSignals : kFailureSignals.Nodup := by decide

theorem mem_kFailureSignals (signal : FailureSignal) : signal ∈ kFailureSignals := by
  cases signal <;> decide

instance instFintypeFailureSignal : Fintype FailureSignal :=
  ⟨⟨kFailureSignals, nodup_kFailureSignals⟩, mem_kFailureSignals⟩

/-- Where an activation of the handler is. In `invoke` and `kill` it runs
`InvokeDefaultSignalHandler`, at the end of `HandleSignal` or because the thread is marked. -/
inductive Phase (Chunk : Type*)
  | start
  | mark
  | exchange
  | wait
  | handle (remaining : List Chunk)
  /-- In `FlushLogFilesUnsafe`, at the end of `HandleSignal`. -/
  | flush
  | invoke (reentered : Bool)
  | kill (reentered : Bool)
  | release
  | unmark
  | done

/-- `g_failure_signal_handler_entered`, and what the failure writer has been given. -/
structure Shared (Chunk : Type*) where
  entered : Bool
  output : List Chunk

variable {T Chunk : Type*}

/-- What `FailureSignalHandler` does, with `t_failure_signal_handler_entered` as the variable of the
thread. `HandleSignal` writes the chunks of `dump`, and then flushes the log files. The flush waits
for the locks of their streams, which the interrupted code of a thread may hold: whether it returns
at all is up to `flushReturns`, and a step of it that fails has not returned yet. -/
def FailureSignalHandler (dump : T → FailureSignal → List Chunk)
    (flushReturns : T → FailureSignal → Bool) :
    Code T FailureSignal Bool (Shared Chunk) (Phase Chunk) where
  start := .start
  next t signal fails entered shared := fun
    | .start => (entered, shared, .goto (if entered then .invoke true else .mark))
    | .mark => (true, shared, .goto .exchange)
    | .exchange =>
      if shared.entered || fails then (entered, shared, .goto .wait)
      else (entered, { shared with entered := true }, .goto (.handle (dump t signal)))
    | .wait => (entered, shared, .goto (if shared.entered then .wait else .exchange))
    | .handle (chunk :: remaining) =>
      (entered, { shared with output := shared.output ++ [chunk] }, .goto (.handle remaining))
    | .handle [] => (entered, shared, .goto .flush)
    | .flush =>
      (entered, shared, .goto (if flushReturns t signal && !fails then .invoke false else .flush))
    | .invoke reentered => (entered, shared, .setDefault (.kill reentered))
    | .kill reentered => (entered, shared, .raise (if reentered then .done else .release))
    | .release => (entered, { shared with entered := false }, .goto .unmark)
    | .unmark => (false, shared, .goto .done)
    | .done => (entered, shared, .finish)

/-- A process with the handler installed and no signal yet. -/
def initial (T Chunk : Type*) : Process T FailureSignal Bool (Shared Chunk) (Phase Chunk) :=
  Process.init false ⟨false, []⟩

/-! ### The activations on a thread -/

/-- The activation has not marked the thread, or no longer. -/
def Phase.Outside : Phase Chunk → Prop
  | .start | .mark | .done => True
  | _ => False

/-- The activation has marked the thread. -/
def Phase.Inside : Phase Chunk → Prop
  | .exchange | .wait | .handle _ | .flush | .invoke false | .kill false | .release |
  .unmark => True
  | _ => False

/-- The activation has found the thread marked, or will. -/
def Phase.Above : Phase Chunk → Prop
  | .start | .invoke true | .kill true | .done => True
  | _ => False

/-- A marked thread has one activation that has marked it. Those that have interrupted this one do
neither wait nor write. -/
def Stacked (entered : Bool) (frames : List (FailureSignal × Phase Chunk)) : Prop :=
  if entered then
    ∃ above inside below, frames = above ++ inside :: below ∧ (∀ frame ∈ above, frame.2.Above) ∧
      inside.2.Inside ∧ ∀ frame ∈ below, frame.2.Outside
  else ∀ frame ∈ frames, frame.2.Outside

theorem stacked_true {frames : List (FailureSignal × Phase Chunk)} :
    Stacked true frames ↔
      ∃ above inside below, frames = above ++ inside :: below ∧ (∀ frame ∈ above, frame.2.Above) ∧
        inside.2.Inside ∧ ∀ frame ∈ below, frame.2.Outside :=
  Iff.rfl

theorem stacked_false {frames : List (FailureSignal × Phase Chunk)} :
    Stacked false frames ↔ ∀ frame ∈ frames, frame.2.Outside :=
  Iff.rfl

/-- The innermost activation of a marked thread is the one that has marked it, or is above it. -/
theorem stacked_cons {signal : FailureSignal} {p : Phase Chunk}
    {rest : List (FailureSignal × Phase Chunk)} :
    Stacked true ((signal, p) :: rest) ↔
      p.Inside ∧ Stacked false rest ∨ p.Above ∧ Stacked true rest := by
  constructor
  · rintro ⟨above, inside, below, hframes, habove, hinside, hbelow⟩
    cases above with
    | nil =>
      obtain ⟨rfl, rfl⟩ := List.cons.inj hframes
      exact .inl ⟨hinside, hbelow⟩
    | cons top above =>
      obtain ⟨rfl, rfl⟩ := List.cons.inj hframes
      exact .inr ⟨habove _ (List.mem_cons_self ..), above, inside, below, rfl,
        fun frame hframe => habove frame (List.mem_cons_of_mem _ hframe), hinside, hbelow⟩
  · rintro (⟨hinside, hbelow⟩ | ⟨hp, above, inside, below, rfl, habove, hinside, hbelow⟩)
    · exact ⟨[], (signal, p), rest, rfl, nofun, hinside, hbelow⟩
    · exact ⟨(signal, p) :: above, inside, below, rfl,
        List.forall_mem_cons.mpr ⟨hp, habove⟩, hinside, hbelow⟩

theorem keeps_stacked (dump : T → FailureSignal → List Chunk)
    (flushReturns : T → FailureSignal → Bool) :
    Keeps (FailureSignalHandler dump flushReturns) fun _ => Stacked where
  push t entered frames signal _ hframes := by
    cases entered with
    | false => exact List.forall_mem_cons.mpr ⟨trivial, hframes⟩
    | true => exact stacked_cons.mpr (.inr ⟨trivial, hframes⟩)
  next t fails shared entered signal p rest hframes := by
    cases entered with
    | false =>
      obtain ⟨hp, hrest⟩ := List.forall_mem_cons.mp (stacked_false.mp hframes)
      cases p with
      | start => exact List.forall_mem_cons.mpr ⟨trivial, hrest⟩
      | mark => exact stacked_cons.mpr (.inl ⟨trivial, hrest⟩)
      | done => exact hrest
      | _ => exact hp.elim
    | true =>
      rcases stacked_cons.mp hframes with ⟨hp, hrest⟩ | ⟨hp, hrest⟩
      · cases p with
        | exchange =>
          simp only [FailureSignalHandler]
          split <;> exact stacked_cons.mpr (.inl ⟨trivial, hrest⟩)
        | wait =>
          simp only [FailureSignalHandler]
          split <;> exact stacked_cons.mpr (.inl ⟨trivial, hrest⟩)
        | handle remaining => cases remaining <;> exact stacked_cons.mpr (.inl ⟨trivial, hrest⟩)
        | flush =>
          simp only [FailureSignalHandler]
          split <;> exact stacked_cons.mpr (.inl ⟨trivial, hrest⟩)
        | invoke reentered =>
          cases reentered with
          | false => exact stacked_cons.mpr (.inl ⟨trivial, hrest⟩)
          | true => exact hp.elim
        | kill reentered =>
          cases reentered with
          | false => exact stacked_cons.mpr (.inl ⟨trivial, hrest⟩)
          | true => exact hp.elim
        | release => exact stacked_cons.mpr (.inl ⟨trivial, hrest⟩)
        | unmark => exact List.forall_mem_cons.mpr ⟨trivial, hrest⟩
        | _ => exact hp.elim
      · cases p with
        | start => exact stacked_cons.mpr (.inr ⟨trivial, hrest⟩)
        | invoke reentered =>
          cases reentered with
          | true => exact stacked_cons.mpr (.inr ⟨trivial, hrest⟩)
          | false => exact hp.elim
        | kill reentered =>
          cases reentered with
          | true => exact stacked_cons.mpr (.inr ⟨trivial, hrest⟩)
          | false => exact hp.elim
        | done => exact hrest
        | _ => exact hp.elim

/-! ### Who owns the dump -/

/-- The activation owns the dump. -/
def Phase.Owns : Phase Chunk → Prop
  | .handle _ | .flush | .invoke false | .kill false | .release => True
  | _ => False

/-- What an activation that owns the dump has written of it and not yet completed. -/
def Phase.Writes (whole written : List Chunk) : Phase Chunk → Prop
  | .handle remaining => written ++ remaining = whole
  | _ => written = []

/-- The dumps that have been completed, one after another. -/
def text (dump : T → FailureSignal → List Chunk) (finished : List (T × FailureSignal)) :
    List Chunk :=
  finished.flatMap fun d => dump d.1 d.2

/-- Either nobody owns the dump, or one activation does. -/
inductive Owned (dump : T → FailureSignal → List Chunk) (shared : Shared Chunk)
    (frames : T → List (FailureSignal × Phase Chunk)) (finished : List (T × FailureSignal)) : Prop
  | free (hentered : shared.entered = false)
      (hnone : ∀ t frame, frame ∈ frames t → ¬ frame.2.Owns)
      (houtput : shared.output = text dump finished)
  | held {t : T} {signal : FailureSignal} {p : Phase Chunk} {written : List Chunk}
      (hentered : shared.entered = true) (hmem : (signal, p) ∈ frames t) (howns : p.Owns)
      (honly : ∀ other frame, frame ∈ frames other → frame.2.Owns → other = t ∧ frame = (signal, p))
      (houtput : shared.output = text dump finished ++ written)
      (hwritten : p.Writes (dump t signal) written)

variable {dump : T → FailureSignal → List Chunk} {flushReturns : T → FailureSignal → Bool}
  {shared : Shared Chunk}
  {frames : T → List (FailureSignal × Phase Chunk)} {finished : List (T × FailureSignal)}

/-- It only matters which activations that own the dump there are. -/
theorem Owned.congr {frames' : T → List (FailureSignal × Phase Chunk)}
    (h : Owned dump shared frames finished)
    (hiff : ∀ t frame, frame.2.Owns → (frame ∈ frames' t ↔ frame ∈ frames t)) :
    Owned dump shared frames' finished := by
  cases h with
  | free hentered hnone houtput =>
    refine .free hentered (fun t frame hframe howns => ?_) houtput
    exact hnone t frame ((hiff t frame howns).mp hframe) howns
  | @held t signal p written hentered hmem howns honly houtput hwritten =>
    refine .held hentered ((hiff t _ howns).mpr hmem) howns
      (fun other frame hframe hframeowns => ?_)
      houtput hwritten
    exact honly other frame ((hiff other frame hframeowns).mp hframe) hframeowns

section Update

variable [DecidableEq T]

theorem mem_update {t other : T} {changed : List (FailureSignal × Phase Chunk)}
    {frame : FailureSignal × Phase Chunk} :
    frame ∈ Function.update frames t changed other ↔
      other = t ∧ frame ∈ changed ∨ other ≠ t ∧ frame ∈ frames other := by
  by_cases hother : other = t
  · rw [hother, Function.update_self]
    simp
  · rw [Function.update_of_ne hother]
    simp [hother]

/-- A step of an activation that does not own the dump, and does not get it, leaves it to its
owner. -/
theorem Owned.other (h : Owned dump shared frames finished) {t : T}
    {top : FailureSignal × Phase Chunk} {rest changed : List (FailureSignal × Phase Chunk)}
    (hframes : frames t = top :: rest) (htop : ¬ top.2.Owns) (hrest : rest ⊆ changed)
    (hchanged : ∀ frame ∈ changed, frame ∈ rest ∨ ¬ frame.2.Owns) :
    Owned dump shared (Function.update frames t changed) finished := by
  refine h.congr fun other frame howns => mem_update.trans ?_
  constructor
  · rintro (⟨rfl, hmem⟩ | ⟨-, hmem⟩)
    · rw [hframes]
      exact List.mem_cons_of_mem _ ((hchanged frame hmem).resolve_right (not_not_intro howns))
    · exact hmem
  · intro hmem
    by_cases hother : other = t
    · refine .inl ⟨hother, hrest ?_⟩
      rw [hother, hframes] at hmem
      refine (List.mem_cons.mp hmem).resolve_left fun heq => htop ?_
      rw [← heq]
      exact howns
    · exact .inr ⟨hother, hmem⟩

/-- An activation that begins leaves the dump to its owner. -/
theorem Owned.push (h : Owned dump shared frames finished) (signal : FailureSignal) (t : T) :
    Owned dump shared (Function.update frames t ((signal, .start) :: frames t)) finished := by
  refine h.congr fun other frame howns => mem_update.trans ?_
  constructor
  · rintro (⟨rfl, hmem⟩ | ⟨-, hmem⟩)
    · refine (List.mem_cons.mp hmem).resolve_left fun heq => ?_
      rw [heq] at howns
      exact howns
    · exact hmem
  · intro hmem
    by_cases hother : other = t
    · exact .inl ⟨hother, List.mem_cons_of_mem _ (hother ▸ hmem)⟩
    · exact .inr ⟨hother, hmem⟩

omit [DecidableEq T] in
/-- If the activation that takes a step owns the dump, no other one does. -/
theorem Owned.top (h : Owned dump shared frames finished) {t : T} {signal : FailureSignal}
    {p : Phase Chunk} {rest : List (FailureSignal × Phase Chunk)}
    (hframes : frames t = (signal, p) :: rest) (hp : p.Owns) :
    shared.entered = true ∧ (∀ other frame, other ≠ t → frame ∈ frames other → ¬ frame.2.Owns) ∧
      ∃ written, shared.output = text dump finished ++ written ∧
      p.Writes (dump t signal) written := by
  have htop : (signal, p) ∈ frames t := hframes ▸ List.mem_cons_self ..
  cases h with
  | free hentered hnone houtput => exact absurd hp (hnone t _ htop)
  | @held owner signal' p' written hentered hmem howns honly houtput hwritten =>
    obtain ⟨rfl, heq⟩ := honly t _ htop hp
    obtain ⟨rfl, rfl⟩ := Prod.mk.inj heq
    exact ⟨hentered, fun other frame hother hframe howns =>
      hother (honly other frame hframe howns).1,
      written, houtput, hwritten⟩

/-- After a step of an activation that then owns the dump, it is the only one. -/
theorem owned_update {t : T} {signal : FailureSignal} {p : Phase Chunk}
    {rest : List (FailureSignal × Phase Chunk)} (written : List Chunk)
    (hentered : shared.entered = true) (hothers : ∀ other frame, other ≠ t → frame ∈ frames other →
      ¬ frame.2.Owns)
    (hrest : ∀ frame ∈ rest, ¬ frame.2.Owns) (hp : p.Owns)
    (houtput : shared.output = text dump finished ++ written)
    (hwritten : p.Writes (dump t signal) written) :
    Owned dump shared (Function.update frames t ((signal, p) :: rest)) finished := by
  refine .held hentered (mem_update.mpr (.inl ⟨rfl, List.mem_cons_self ..⟩)) hp ?_ houtput hwritten
  intro other frame hframe howns
  rcases mem_update.mp hframe with ⟨rfl, hmem⟩ | ⟨hother, hmem⟩
  · rcases List.mem_cons.mp hmem with rfl | hmem
    · exact ⟨rfl, rfl⟩
    · exact absurd howns (hrest frame hmem)
  · exact absurd howns (hothers other frame hother hmem)

end Update

theorem Phase.Inside.not_above {p : Phase Chunk} (h : p.Inside) : ¬ p.Above ∧ ¬ p.Outside := by
  cases p with
  | invoke reentered | kill reentered => cases reentered <;> simp_all [Inside, Above, Outside]
  | _ => simp_all [Inside, Above, Outside]

theorem Phase.Outside.not_owns {p : Phase Chunk} (h : p.Outside) : ¬ p.Owns := by
  cases p <;> simp_all [Outside, Owns]

/-- Below an activation that has marked the thread, none owns the dump. -/
theorem stacked_inside {entered : Bool} {signal : FailureSignal} {p : Phase Chunk}
    {rest : List (FailureSignal × Phase Chunk)} (h : Stacked entered ((signal, p) :: rest))
    (hp : p.Inside) : ∀ frame ∈ rest, ¬ frame.2.Owns := by
  intro frame hframe
  cases entered with
  | false => exact absurd (h _ (List.mem_cons_self ..)) hp.not_above.2
  | true =>
    rcases stacked_cons.mp h with ⟨-, hrest⟩ | ⟨habove, -⟩
    · exact (stacked_false.mp hrest frame hframe).not_owns
    · exact absurd habove hp.not_above.1

/-- A step of the handler leaves the dump with its owner, or takes it, or gives it away. -/
theorem owned_next [DecidableEq T] (flushReturns : T → FailureSignal → Bool) {t : T}
    {entered : Bool} (fails : Bool)
    {signal : FailureSignal} {p : Phase Chunk} {rest : List (FailureSignal × Phase Chunk)}
    (h : Owned dump shared frames finished) (hframes : frames t = (signal, p) :: rest)
    (hstacked : Stacked entered (frames t)) :
    let result := (FailureSignalHandler dump flushReturns).next t signal fails entered shared p
    p ≠ .handle [] ∧
        Owned dump result.2.1 (Function.update frames t (result.2.2.frames signal rest)) finished ∨
      p = .handle [] ∧ Owned dump result.2.1
        (Function.update frames t (result.2.2.frames signal rest)) (finished ++ [(t, signal)]) := by
  rw [hframes] at hstacked
  have hidle : ∀ next : Phase Chunk, ¬ p.Owns → ¬ next.Owns →
      Owned dump shared (Function.update frames t ((signal, next) :: rest)) finished :=
    fun next hp hnext => h.other hframes hp (List.subset_cons_self ..) fun frame hframe =>
      (List.mem_cons.mp hframe).symm.imp_right fun heq => by rwa [heq]
  cases p with
  | start => exact .inl ⟨nofun, hidle _ id (by split <;> exact id)⟩
  | mark | unmark => exact .inl ⟨nofun, hidle _ id id⟩
  | wait => exact .inl ⟨nofun, hidle _ id (by split <;> exact id)⟩
  | done => exact .inl ⟨nofun, h.other hframes id (List.Subset.refl _) fun _ => .inl⟩
  | exchange =>
    refine .inl ⟨nofun, ?_⟩
    simp only [FailureSignalHandler]
    split
    · exact hidle _ id id
    · rename_i hcondition
      rw [Bool.or_eq_true, not_or, Bool.not_eq_true] at hcondition
      have hrest := stacked_inside hstacked trivial
      cases h with
      | held hentered => exact absurd (hentered.symm.trans hcondition.1) (by decide)
      | free hentered hnone houtput =>
        refine owned_update [] rfl (fun other frame _ => hnone other frame) hrest trivial ?_ rfl
        rw [houtput, List.append_nil]
  | handle remaining =>
    obtain ⟨hentered, hothers, written, houtput, hwritten⟩ := h.top hframes trivial
    have hrest := stacked_inside hstacked trivial
    cases remaining with
    | nil =>
      refine .inr ⟨rfl, owned_update [] hentered hothers hrest trivial ?_ rfl⟩
      change written ++ [] = dump t signal at hwritten
      rw [List.append_nil] at hwritten ⊢
      rw [text, List.flatMap_append, List.flatMap_singleton, ← hwritten]
      exact houtput
    | cons chunk remaining =>
      refine .inl ⟨nofun, owned_update (written ++ [chunk]) hentered hothers hrest trivial ?_ ?_⟩
      · change shared.output ++ [chunk] = _
        rw [houtput, List.append_assoc]
      · change (written ++ [chunk]) ++ remaining = dump t signal
        rw [List.append_assoc]
        exact hwritten
  | flush =>
    obtain ⟨hentered, hothers, written, houtput, hwritten⟩ := h.top hframes trivial
    have hrest := stacked_inside hstacked trivial
    refine .inl ⟨nofun, ?_⟩
    simp only [FailureSignalHandler]
    split <;> exact owned_update written hentered hothers hrest trivial houtput hwritten
  | invoke reentered =>
    cases reentered with
    | true => exact .inl ⟨nofun, hidle _ id id⟩
    | false =>
      obtain ⟨hentered, hothers, written, houtput, hwritten⟩ := h.top hframes trivial
      exact .inl ⟨nofun, owned_update written hentered hothers
        (stacked_inside hstacked trivial) trivial
        houtput hwritten⟩
  | kill reentered =>
    cases reentered with
    | true => exact .inl ⟨nofun, hidle _ id id⟩
    | false =>
      obtain ⟨hentered, hothers, written, houtput, hwritten⟩ := h.top hframes trivial
      exact .inl ⟨nofun, owned_update written hentered hothers
        (stacked_inside hstacked trivial) trivial
        houtput hwritten⟩
  | release =>
    obtain ⟨-, hothers, written, houtput, hwritten⟩ := h.top hframes trivial
    have hrest := stacked_inside hstacked trivial
    refine .inl ⟨nofun, .free rfl (fun other frame hframe => ?_) ?_⟩
    · rcases mem_update.mp hframe with ⟨rfl, hmem⟩ | ⟨hother, hmem⟩
      · exact (List.mem_cons.mp hmem).elim (fun heq => heq ▸ id) (hrest frame)
      · exact hothers other frame hother hmem
    · change written = [] at hwritten
      rw [hwritten, List.append_nil] at houtput
      exact houtput

/-! ### Which dumps have been written -/

/-- The activation has written its dump and not yet put the default action back. -/
def Phase.Flushes : Phase Chunk → Prop
  | .flush | .invoke false => True
  | _ => False

/-- The activation has written its dump and has not returned. -/
def Phase.Past : Phase Chunk → Prop
  | .flush | .invoke false | .kill false | .release | .unmark => True
  | _ => False

theorem Phase.Flushes.past {p : Phase Chunk} (h : p.Flushes) : p.Past := by
  cases p with
  | flush => exact trivial
  | invoke reentered =>
    cases reentered with
    | false => exact trivial
    | true => exact h.elim
  | _ => exact h.elim

/-- The activation has written its dump, or does not write one. -/
def Phase.Late (p : Phase Chunk) : Prop := p.Past ∨ p = .done

/-- A thread has written the dump of a signal: it writes no other one for it. -/
structure Dumped (isDefault : FailureSignal → Bool)
    (frames : T → List (FailureSignal × Phase Chunk)) (d : T × FailureSignal) : Prop where
  reset : isDefault d.2 = true ∨ ∃ p, p.Flushes ∧ (d.2, p) ∈ frames d.1
  late : ∀ p, (d.2, p) ∈ frames d.1 → p.Late

/-- The dumps that have been written, none of them twice: those of all activations that are past
writing. -/
structure Finished (isDefault : FailureSignal → Bool)
    (frames : T → List (FailureSignal × Phase Chunk)) (finished : List (T × FailureSignal)) :
    Prop where
  nodup : finished.Nodup
  dumped : ∀ d ∈ finished, Dumped isDefault frames d
  complete : ∀ t signal p, (signal, p) ∈ frames t → p.Past → (t, signal) ∈ finished

/-- What follows a dump that has been written. -/
theorem Phase.past_next {t : T} {signal : FailureSignal} {fails entered : Bool}
    {p next : Phase Chunk}
    (hnext : (signal, next) ∈ ((FailureSignalHandler dump flushReturns).next t signal fails entered
      shared p).2.2.frames signal []) (hpast : next.Past) : p.Past ∨ p = .handle [] := by
  cases p with
  | handle remaining =>
    cases remaining with
    | nil => exact .inr rfl
    | cons => cases List.mem_singleton.mp hnext; exact hpast.elim
  | flush | release | unmark => exact .inl trivial
  | invoke reentered | kill reentered =>
    cases reentered with
    | false => exact .inl trivial
    | true => cases List.mem_singleton.mp hnext; exact hpast.elim
  | start | exchange | wait =>
    simp only [FailureSignalHandler] at hnext
    split at hnext <;> cases List.mem_singleton.mp hnext <;> exact hpast.elim
  | mark => cases List.mem_singleton.mp hnext; exact hpast.elim
  | done => cases hnext

/-- Until the default action has been put back, the next step puts it back or is such a point. -/
theorem Phase.flushes_next (dump : T → FailureSignal → List Chunk)
    (flushReturns : T → FailureSignal → Bool) (t : T) (signal : FailureSignal)
    (fails entered : Bool) (shared : Shared Chunk) {p : Phase Chunk} (hp : p.Flushes) :
    let effect :=
      ((FailureSignalHandler dump flushReturns).next t signal fails entered shared p).2.2
    (∃ next, next.Flushes ∧ (signal, next) ∈ effect.frames signal []) ∨
      ∃ next, effect = .setDefault next := by
  cases p with
  | flush =>
    left
    simp only [FailureSignalHandler]
    split
    · exact ⟨.invoke false, trivial, List.mem_singleton_self _⟩
    · exact ⟨.flush, trivial, List.mem_singleton_self _⟩
  | invoke reentered =>
    cases reentered with
    | false => exact .inr ⟨_, rfl⟩
    | true => exact hp.elim
  | _ => exact hp.elim

theorem Phase.late_next {t : T} {signal : FailureSignal} {fails entered : Bool}
    {p next : Phase Chunk} (hp : p.Late)
    (hnext : (signal, next) ∈ ((FailureSignalHandler dump flushReturns).next t signal
      fails entered shared p).2.2.frames signal []) : next.Late := by
  cases p with
  | flush =>
    simp only [FailureSignalHandler] at hnext
    split at hnext <;> cases List.mem_singleton.mp hnext <;> exact .inl trivial
  | invoke reentered | kill reentered =>
    cases reentered with
    | false => cases List.mem_singleton.mp hnext; exact .inl trivial
    | true => exact hp.elim False.elim nofun
  | release => cases List.mem_singleton.mp hnext; exact .inl trivial
  | unmark => cases List.mem_singleton.mp hnext; exact .inr rfl
  | done => cases hnext
  | _ => exact hp.elim False.elim nofun

variable [DecidableEq T] {ignored : FailureSignal → Bool}
  {w w' : Process T FailureSignal Bool (Shared Chunk) (Phase Chunk)}

theorem Dumped.push {d : T × FailureSignal} (h : Dumped w.isDefault w.frames d) {t : T}
    {signal : FailureSignal} (hdefault : w.isDefault signal = false)
    (hblocked : signal ∉ (w.threads t).blocked) :
    Dumped w.isDefault (w.push (FailureSignalHandler dump flushReturns) t signal).frames d := by
  rw [frames_push]
  have hnot : ¬ (d.1 = t ∧ d.2 = signal) := by
    rintro ⟨rfl, rfl⟩
    rcases h.reset with hreset | ⟨p, -, hmem⟩
    · exact absurd (hreset.symm.trans hdefault) (by decide)
    · exact hblocked (List.mem_map_of_mem hmem)
  refine ⟨h.reset.imp_right ?_, fun p hp => ?_⟩
  · rintro ⟨p, hp, hmem⟩
    refine ⟨p, hp, ?_⟩
    by_cases ht : d.1 = t
    · exact mem_update.mpr (.inl ⟨ht, List.mem_cons_of_mem _ (ht ▸ hmem)⟩)
    · exact mem_update.mpr (.inr ⟨ht, hmem⟩)
  · rcases mem_update.mp hp with ⟨ht, hmem⟩ | ⟨-, hmem⟩
    · rcases List.mem_cons.mp hmem with heq | hmem
      · exact absurd ⟨ht, congrArg Prod.fst heq⟩ hnot
      · exact h.late p (ht ▸ hmem)
    · exact h.late p hmem

theorem Dumped.advance {d : T × FailureSignal} (h : Dumped w.isDefault w.frames d) {t : T}
    {signal : FailureSignal} {p : Phase Chunk} {rest : List (FailureSignal × Phase Chunk)}
    {fails : Bool} (hframes : w.frames t = (signal, p) :: rest) :
    Dumped (w.advance (FailureSignalHandler dump flushReturns) t signal p rest fails).isDefault
      (w.advance (FailureSignalHandler dump flushReturns) t signal p rest fails).frames d := by
  refine ⟨?_, fun q hq => ?_⟩
  · rcases h.reset with hreset | ⟨q, hq, hmem⟩
    · exact .inl (isDefault_advance _ w t signal p rest fails d.2 hreset)
    by_cases ht : d.1 = t
    · rw [ht, hframes] at hmem
      rcases List.mem_cons.mp hmem with heq | hmem
      · obtain ⟨hsignal, rfl⟩ := Prod.mk.inj heq
        rw [frames_advance, ht, Function.update_self, hsignal]
        rcases Phase.flushes_next dump flushReturns t signal fails (w.threads t).locals w.shared hq
          with ⟨next, hnext, hmem⟩ | ⟨next, heffect⟩
        · exact .inr ⟨next, hnext, mem_frames.mpr (.inl hmem)⟩
        · exact .inl (isDefault_advance_setDefault heffect)
      · refine .inr ⟨q, hq, ?_⟩
        rw [frames_advance]
        exact mem_update.mpr (.inl ⟨ht, mem_frames.mpr (.inr hmem)⟩)
    · refine .inr ⟨q, hq, ?_⟩
      rw [frames_advance]
      exact mem_update.mpr (.inr ⟨ht, hmem⟩)
  · rw [frames_advance, mem_update] at hq
    rcases hq with ⟨ht, hmem⟩ | ⟨-, hmem⟩
    · have hlate := h.late
      rw [ht, hframes] at hlate
      rcases mem_frames.mp hmem with htop | hmem
      · obtain rfl : d.2 = signal := fst_of_mem_frames htop
        exact Phase.late_next (hlate p (List.mem_cons_self ..)) htop
      · exact hlate q (List.mem_cons_of_mem _ hmem)
    · exact h.late q hmem

/-- The dump is owned by nobody or by one activation, and none is written twice. -/
def Exclusive (dump : T → FailureSignal → List Chunk)
    (w : Process T FailureSignal Bool (Shared Chunk) (Phase Chunk)) : Prop :=
  ∃ finished, Owned dump w.shared w.frames finished ∧ Finished w.isDefault w.frames finished

theorem Exclusive.push (h : Exclusive dump w) {t : T} {signal : FailureSignal}
    (hdefault : w.isDefault signal = false) (hblocked : signal ∉ (w.threads t).blocked) :
    Exclusive dump (w.push (FailureSignalHandler dump flushReturns) t signal) := by
  obtain ⟨finished, howned, hfinished⟩ := h
  refine ⟨finished, ?_, hfinished.nodup,
    fun d hd => (hfinished.dumped d hd).push hdefault hblocked,
    fun other signal' p hmem hpast => ?_⟩
  · rw [frames_push]
    exact howned.push signal t
  · rw [frames_push] at hmem
    rcases mem_update.mp hmem with ⟨rfl, hmem⟩ | ⟨-, hmem⟩
    · rcases List.mem_cons.mp hmem with heq | hmem
      · cases heq
        exact hpast.elim
      · exact hfinished.complete _ _ p hmem hpast
    · exact hfinished.complete _ _ p hmem hpast

theorem Exclusive.advance (h : Exclusive dump w) {t : T} {signal : FailureSignal} {p : Phase Chunk}
    {rest : List (FailureSignal × Phase Chunk)} {fails : Bool}
    (hframes : w.frames t = (signal, p) :: rest)
    (hstacked : Stacked (w.threads t).locals (w.frames t))
    (hdistinct : (w.threads t).blocked.Nodup) :
    Exclusive dump (w.advance (FailureSignalHandler dump flushReturns) t signal p rest fails) := by
  obtain ⟨finished, howned, hfinished⟩ := h
  have hnext := owned_next flushReturns fails howned hframes hstacked
  dsimp only at hnext
  rw [← shared_advance (FailureSignalHandler dump flushReturns) w t signal p rest fails,
    ← frames_advance (FailureSignalHandler dump flushReturns) w t signal p rest fails] at hnext
  have hdumped : ∀ d ∈ finished, Dumped
      (w.advance (FailureSignalHandler dump flushReturns) t signal p rest fails).isDefault
      (w.advance (FailureSignalHandler dump flushReturns) t signal p rest fails).frames d :=
        fun d hd =>
    (hfinished.dumped d hd).advance hframes
  -- an activation that is past writing was so before, or has just written the last chunk
  have hcomplete : ∀ other signal' q, (signal', q) ∈
      (w.advance (FailureSignalHandler dump flushReturns) t signal p rest fails).frames other →
      q.Past → (other, signal') ∈ finished ∨ (other, signal') = (t, signal) ∧ p = .handle [] := by
    intro other signal' q hmem hpast
    rw [frames_advance] at hmem
    rcases mem_update.mp hmem with ⟨rfl, hmem⟩ | ⟨-, hmem⟩
    · rcases mem_frames.mp hmem with htop | hmem
      · obtain rfl : signal' = signal := fst_of_mem_frames htop
        refine (Phase.past_next htop hpast).imp (fun hp => ?_) fun hp => ⟨rfl, hp⟩
        exact hfinished.complete _ _ p (hframes ▸ List.mem_cons_self ..) hp
      · exact .inl (hfinished.complete _ _ q (hframes ▸ List.mem_cons_of_mem _ hmem) hpast)
    · exact .inl (hfinished.complete _ _ q hmem hpast)
  rcases hnext with ⟨hp, hnext⟩ | ⟨rfl, hnext⟩
  · refine ⟨finished, hnext, hfinished.nodup, hdumped, fun other signal' q hmem hpast => ?_⟩
    exact (hcomplete other signal' q hmem hpast).resolve_right fun h => hp h.2
  · have hnew : (t, signal) ∉ finished := fun hmem =>
      ((hfinished.dumped _ hmem).late (.handle []) (hframes ▸ List.mem_cons_self ..)).elim id nofun
    have hframes' : (w.advance (FailureSignalHandler dump flushReturns) t signal (.handle []) rest
        fails).frames t = (signal, .flush) :: rest := by
      rw [frames_advance, Function.update_self]
      rfl
    rw [Thread.blocked, show (w.threads t).frames = _ from hframes, List.map_cons,
      List.nodup_cons] at hdistinct
    refine ⟨finished ++ [(t, signal)], hnext, ?_, fun d hd => ?_,
      fun other signal' q hmem hpast => ?_⟩
    · exact List.nodup_append.mpr ⟨hfinished.nodup, List.nodup_singleton _, fun d hd d' hd' heq =>
        hnew (List.mem_singleton.mp hd' ▸ heq ▸ hd)⟩
    · rcases List.mem_append.mp hd with hd | hd
      · exact hdumped d hd
      · obtain rfl := List.mem_singleton.mp hd
        refine ⟨.inr ⟨.flush, trivial, hframes' ▸ List.mem_cons_self ..⟩, fun q hq => ?_⟩
        rw [hframes'] at hq
        rcases List.mem_cons.mp hq with heq | hmem
        · cases heq
          exact .inl trivial
        · exact absurd (List.mem_map_of_mem hmem) hdistinct.1
    · exact List.mem_append.mpr ((hcomplete other signal' q hmem hpast).imp_right fun h =>
        List.mem_singleton.mpr h.1)

/-- The steps of the handlers keep what is known of the dump. -/
theorem exclusive_step (hstacked : w.Each fun _ => Stacked)
    (hdistinct : ∀ t, (w.threads t).blocked.Nodup) (h : Exclusive dump w)
    {event : Event T FailureSignal}
    (hstep : step (FailureSignalHandler dump flushReturns) ignored w event = some w') :
    Exclusive dump w' := by
  cases step_eq_some.mp hstep with
  | send | crash | drop | kill => exact h
  | fault _ _ hdefault hblocked => exact h.push hdefault hblocked
  | @deliver t signal _ _ hblocked hdefault =>
    have hpending : Exclusive dump (w.setPending signal false) := h
    exact hpending.push hdefault hblocked
  | @resume t _ _ _ _ =>
    rw [Exclusive, frames_resume]
    exact h
  | @run t fails signal p rest _ _ hframes => exact h.advance hframes (hstacked t) (hdistinct t)

omit [DecidableEq T] in
theorem exclusive_init : Exclusive dump (initial T Chunk) :=
  ⟨[], .free rfl (fun _ _ hframe => nomatch hframe) rfl, List.nodup_nil, nofun,
    fun _ _ _ hframe => nomatch hframe⟩

theorem exclusive_run {events : List (Event T FailureSignal)}
    (hrun : Transition.run (step (FailureSignalHandler dump flushReturns) ignored) (initial T Chunk)
      events = some w) :
    Exclusive dump w ∧ (w.Each fun _ => Stacked) ∧ ∀ t, (w.threads t).blocked.Nodup := by
  refine Transition.run_invariant_all (I := fun w => Exclusive dump w ∧ (w.Each fun _ => Stacked) ∧
    ∀ t, (w.threads t).blocked.Nodup) ?_ ?_ hrun
  · rintro w event w' ⟨h, hstacked, hdistinct⟩ hstep
    exact ⟨exclusive_step hstacked hdistinct h hstep,
      (keeps_stacked dump flushReturns).step hstacked hstep,
      (keeps_distinct _).step hdistinct hstep⟩
  · refine ⟨exclusive_init, fun t => stacked_false.mpr ?_, fun t => List.nodup_nil⟩
    exact List.forall_mem_nil _

theorem exists_owner {events : List (Event T FailureSignal)}
    (hrun : Transition.run (step (FailureSignalHandler dump flushReturns) ignored) (initial T Chunk)
      events = some w)
    (hentered : w.shared.entered = true) : ∃ t, ∃ frame ∈ w.frames t, frame.2.Owns := by
  obtain ⟨⟨finished, howned, -⟩, -⟩ := exclusive_run hrun
  cases howned with
  | free hfree =>
    rw [hentered] at hfree
    cases hfree
  | held _ hmem howns => exact ⟨_, _, hmem, howns⟩

/-! ### What holds after every run -/

/-- The process after a thread has written some chunks. -/
def written (w : Process T FailureSignal Bool (Shared Chunk) (Phase Chunk)) (chunks : List Chunk) :
    Process T FailureSignal Bool (Shared Chunk) (Phase Chunk) :=
  { w with shared := { w.shared with output := w.shared.output ++ chunks } }

/-- An activation that nothing interrupts writes the rest of its dump, by induction on it. -/
theorem run_handle (t : T) (signal : FailureSignal) (rest : List (FailureSignal × Phase Chunk)) :
    ∀ (remaining : List Chunk) {w : Process T FailureSignal Bool (Shared Chunk) (Phase Chunk)},
      w.alive = true → w.threads t = ⟨true, (signal, .handle remaining) :: rest, none⟩ →
      Transition.run (step (FailureSignalHandler dump flushReturns) ignored) w
          (List.replicate remaining.length (.run t false)) =
        some ((written w remaining).setThread t ⟨true, (signal, .handle []) :: rest, none⟩)
  | [], w, halive, hthread => by
    refine congrArg some ?_
    rw [Process.setThread, written, List.append_nil, ← hthread]
    dsimp only
    rw [Function.update_eq_self]
  | chunk :: remaining, w, halive, hthread => by
    have hexiting : (w.threads t).exiting = none := by rw [hthread]
    have hframes : (w.threads t).frames = (signal, .handle (chunk :: remaining)) :: rest := by
      rw [hthread]
    have hnext : w.advance (FailureSignalHandler dump flushReturns) t signal
        (.handle (chunk :: remaining)) rest false =
        (written w [chunk]).setThread t ⟨true, (signal, .handle remaining) :: rest, none⟩ := by
      simp only [Process.advance, hthread]
      rfl
    have halive' : ((written w [chunk]).setThread t
        ⟨true, (signal, .handle remaining) :: rest, none⟩).alive = true := halive
    have hthread' : ((written w [chunk]).setThread t
        ⟨true, (signal, .handle remaining) :: rest, none⟩).threads t =
          ⟨true, (signal, .handle remaining) :: rest, none⟩ := Function.update_self ..
    rw [List.length_cons, List.replicate_succ, Transition.run,
      step_eq_some.mpr (.run halive hexiting hframes), Option.bind_some, hnext,
      run_handle t signal rest remaining halive' hthread']
    simp [Process.setThread, written, List.append_assoc]

/-- The first thread has written its dump and the second one waits. -/
def dumpedAndWaiting : List (Event Bool FailureSignal) :=
  [.fault true .SIGSEGV, .run true false, .fault false .SIGILL, .run true false, .run true false,
    .run false false, .run false false, .run false false, .run true false, .run true false,
    .run true false]

/-- On each thread at most one activation can wait or write, those that have interrupted it send
their signals again at once, and there are no more activations than failure signals. -/
theorem activations_nest {events : List (Event T FailureSignal)}
    (hrun : Transition.run (step (FailureSignalHandler dump flushReturns) ignored) (initial T Chunk)
      events = some w)
    (t : T) : Stacked (w.threads t).locals (w.frames t) ∧
    (w.frames t).length ≤ kFailureSignals.length := by
  obtain ⟨-, hstacked, hdistinct⟩ := exclusive_run hrun
  refine ⟨hstacked t, ?_⟩
  have hlength := ((hdistinct t).subperm fun signal _ => mem_kFailureSignals signal).length_le
  rwa [Thread.blocked, List.length_map] at hlength

theorem activations_nest_reentered : ∃ w, Transition.run
      (step (FailureSignalHandler (fun (t : Bool) _ => [t, t]) fun _ _ => true)
        fun _ => false) (initial Bool Bool)
      [.fault true .SIGSEGV, .run true false, .run true false, .fault true .SIGILL,
        .run true false] = some w ∧
      Stacked (w.threads true).locals (w.frames true) ∧
      (w.frames true).length ≤ kFailureSignals.length := by
  obtain ⟨w, hw⟩ : ∃ w, Transition.run
      (step (FailureSignalHandler (fun (t : Bool) _ => [t, t]) fun _ _ => true)
        fun _ => false) (initial Bool Bool)
      [.fault true .SIGSEGV, .run true false, .run true false, .fault true .SIGILL,
        .run true false] = some w := ⟨_, rfl⟩
  exact ⟨w, hw, activations_nest hw true⟩

/-- The activation has put the default action back. -/
def Phase.Reset : Phase Chunk → Prop
  | .kill _ | .release | .unmark | .done => True
  | _ => False

/-- The activation has sent its signal again. -/
def Phase.Sent : Phase Chunk → Prop
  | .release | .unmark | .done => True
  | _ => False

omit [DecidableEq T] in
theorem reraises (dump : T → FailureSignal → List Chunk)
    (flushReturns : T → FailureSignal → Bool) :
    Reraises (FailureSignalHandler dump flushReturns) Phase.Reset Phase.Sent where
  start := ⟨id, id⟩
  next t signal fails entered shared p := by
    cases p with
    | start => cases entered <;> exact ⟨False.elim, False.elim⟩
    | exchange =>
      simp only [FailureSignalHandler]
      split <;> exact ⟨False.elim, False.elim⟩
    | wait =>
      simp only [FailureSignalHandler]
      split <;> exact ⟨False.elim, False.elim⟩
    | handle remaining => cases remaining <;> exact ⟨False.elim, False.elim⟩
    | flush =>
      simp only [FailureSignalHandler]
      split <;> exact ⟨False.elim, False.elim⟩
    | mark => exact ⟨False.elim, False.elim⟩
    | invoke reentered => exact False.elim
    | kill reentered => trivial
    | release | unmark => exact ⟨fun _ => trivial, fun _ => trivial⟩
    | done => trivial

/-- When an activation has returned for a signal that is not ignored, the thread does not go back to
the program that the signal has interrupted: the signal is delivered again and ends the process. -/
theorem failure_not_resumed {events : List (Event T FailureSignal)} {t : T} {signal : FailureSignal}
    (hrun : Transition.run (step (FailureSignalHandler dump flushReturns) ignored) (initial T Chunk)
      events = some w)
    (halive : w.alive = true) (hexiting : (w.threads t).exiting = some signal)
    (hignored : ignored signal = false) :
    step (FailureSignalHandler dump flushReturns) ignored w (.resume t) = none ∧
      step (FailureSignalHandler dump flushReturns) ignored w (.deliver t signal) = some w.die :=
  (reraises dump flushReturns).not_resume hrun halive hexiting hignored

theorem failure_not_resumed_once : ∃ w, Transition.run
      (step (FailureSignalHandler (fun (t : Bool) _ => [t]) fun _ _ => true)
        fun _ => false) (initial Bool Bool)
      (.send .SIGTERM :: .deliver true .SIGTERM :: List.replicate 11 (.run true false)) = some w ∧
      step (FailureSignalHandler (fun (t : Bool) _ => [t]) fun _ _ => true)
        (fun _ => false) w (.resume true) = none ∧
      step (FailureSignalHandler (fun (t : Bool) _ => [t]) fun _ _ => true)
        (fun _ => false) w (.deliver true .SIGTERM) =
        some w.die := by
  obtain ⟨w, hw, halive, hexiting⟩ : ∃ w, Transition.run
      (step (FailureSignalHandler (fun (t : Bool) _ => [t]) fun _ _ => true)
        fun _ => false) (initial Bool Bool)
      (.send .SIGTERM :: .deliver true .SIGTERM :: List.replicate 11 (.run true false)) = some w ∧
      w.alive = true ∧ (w.threads true).exiting = some .SIGTERM := ⟨_, rfl, rfl, rfl⟩
  exact ⟨w, hw, failure_not_resumed hw halive hexiting rfl⟩

end Signals

end NgLog
