import Mathlib.Data.Set.Insert
import Mathlib.Logic.Function.Basic
import NgLog.Support.Programs

/-!
# Child processes

What a POSIX system does for a process with children, as far as `Subprocess` relies on it. A child
that has exited keeps its id until `waitpid` returns its status; then the id is free, and may be
given to another child. Children exit at any moment, and a call may be interrupted.

What happens is a list of moments, one for each time that a call enters the system. A program whose
calls go on when the moments are used up has not returned yet. What has been called is recorded,
with the child that the caller means: ids alone would not tell a child from a later one with the
same id.

## Main definitions

* `Moment`, `World` — what happens, and the state of the system
* `kill`, `waitpid`, `fork`, `now`, `poll`, `read` — the calls
* `Proper` — what must hold of each event of the record

## Main results

* `kill_spec`, `waitpid_spec`, `fork_spec` — the calls, in terms of the children that are not reaped
-/

namespace NgLog

namespace Subprocesses

open Programs

/-! ### The system -/

/-- The status of a child that has exited: `WIFEXITED` with `WEXITSTATUS`, or a signal. -/
inductive Status
  | exited (code : ℕ)
  | signaled (signal : ℕ)
deriving DecidableEq

/-- The values of `errno`. -/
inductive Errno
  | eintr
  | echild
  | esrch
  | other
deriving DecidableEq

/-- `SubprocessWaitResult`. -/
inductive SubprocessWaitResult
  | exited (code : ℕ)
  | timedOut
  | failed
  | unavailable
deriving DecidableEq

/-- What happens when a call enters the system. Each call looks at what concerns it. -/
structure Moment where
  /-- The ids of children that have exited until then. -/
  exits : List (ℤ × Status)
  /-- The call fails with `EINTR`. -/
  interrupted : Bool
  /-- A pipe is created, or a child, or `poll` does not fail. -/
  succeeds : Bool
  /-- The id for a new child. -/
  pid : ℤ
  /-- The time. -/
  clock : ℤ
  /-- What `read` returns. -/
  bytes : ℤ

/-- What is recorded. Children are numbered. -/
inductive Event
  | forked (pid : ℤ) (child : ℕ)
  | exit (child : ℕ) (status : Status)
  | kill (pid : ℤ) (child : ℕ)
  | waitpid (pid : ℤ) (child : ℕ)
  | reaped (child : ℕ) (status : Status)
  /-- `Wait` has returned, on an object with this child. -/
  | returned (child : ℕ) (result : SubprocessWaitResult)

/-- A child that has not been reaped, with its status if it has exited. -/
structure Child where
  number : ℕ
  status : Option Status

/-- The system, the moments to come, and the record, the latest event first. -/
structure World where
  moments : List Moment
  children : ℤ → Option Child
  forked : ℕ
  events : List Event

/-- The programs that call the system. -/
abbrev Sys (α : Type) : Type := Program World α

namespace World

def init (moments : List Moment) : World := ⟨moments, fun _ => none, 0, []⟩

/-- An upper bound for the calls that can still be made. -/
def size (w : World) : ℕ := w.moments.length

def record (e : Event) (w : World) : World := { w with events := e :: w.events }

/-- A child exits, if it is running. -/
def exit (w : World) (pid : ℤ) (status : Status) : World :=
  match w.children pid with
  | some ⟨child, none⟩ =>
    { w with children := Function.update w.children pid (some ⟨child, some status⟩) }.record
      (.exit child status)
  | _ => w

def exitAll (w : World) (exits : List (ℤ × Status)) : World :=
  exits.foldl (fun w child => w.exit child.1 child.2) w

/-- `waitpid`: nothing for a child that is running. -/
def reap (pid : ℤ) (w : World) : Except Errno (Option Status) × World :=
  match w.children pid with
  | none => (.error .echild, w)
  | some ⟨_, none⟩ => (.ok none, w)
  | some ⟨child, some status⟩ =>
    (.ok (some status),
      { w with children := Function.update w.children pid none }.record (.reaped child status))

/-- A new child with an id that is free, if there is to be one. -/
def fork (m : Moment) (w : World) : Option (ℤ × ℕ) × World :=
  if m.succeeds ∧ 0 < m.pid ∧ (w.children m.pid).isNone then
    (some (m.pid, w.forked),
      { w with
        children := Function.update w.children m.pid (some ⟨w.forked, none⟩)
        forked := w.forked + 1 }.record (.forked m.pid w.forked))
  else (none, w)

/-- The next moment. -/
def next (w : World) : Option Moment × World :=
  match w.moments with
  | [] => (none, w)
  | m :: moments => (some m, { w with moments := moments }.exitAll m.exits)

end World

/-! ### Calls -/

def record (e : Event) : Sys PUnit := modify (World.record e)

/-- A call enters the system. -/
def enter : Sys Moment := do
  match ← modifyGet World.next with
  | none => failure
  | some m => pure m

/-- `kill`, for the child that has this id. -/
def kill (pid : ℤ) (child : ℕ) : Sys (Except Errno PUnit) := do
  record (.kill pid child)
  let m ← enter
  if m.interrupted then return .error .eintr
  else
    let w ← get
    return if (w.children pid).isSome then .ok ⟨⟩ else .error .esrch

/-- `waitpid`. Zero is `none`, the id is the status. Without `WNOHANG` it waits for the child. -/
def waitpid (pid : ℤ) (child : ℕ) (nohang : Bool) : Sys (Except Errno (Option Status)) := do
  record (.waitpid pid child)
  loop World.size
    (fun _ => do
      let m ← enter
      if m.interrupted then return .inr (.error .eintr)
      else
        let result ← modifyGet (World.reap pid)
        return match result with
          | .ok none => if nohang then .inr result else .inl ()
          | _ => .inr result)
    ()

/-- A call that creates a child, and gives its id and its number. -/
def fork : Sys (Option (ℤ × ℕ)) := do
  let m ← enter
  modifyGet (World.fork m)

/-- A call that only succeeds or fails. -/
def attempt : Sys Bool := do
  let m ← enter
  return m.succeeds

/-- The clock. -/
def now : Sys ℤ := do
  let m ← enter
  return m.clock

/-- `poll` without descriptors. -/
def poll : Sys (Except Errno PUnit) := do
  let m ← enter
  return if m.interrupted then .error .eintr else if m.succeeds then .ok ⟨⟩ else .error .other

/-- `read`, which may return `-1`. -/
def read : Sys (Except Errno ℤ) := do
  let m ← enter
  return if m.interrupted then .error .eintr else .ok m.bytes

/-! Every call takes a moment. -/

theorem exit_size (w : World) (pid : ℤ) (status : Status) :
    (w.exit pid status).size = w.size := by
  rw [World.exit]
  split <;> rfl

theorem exitAll_size (w : World) (exits : List (ℤ × Status)) :
    (w.exitAll exits).size = w.size := by
  induction exits generalizing w with
  | nil => rfl
  | cons e exits ih => exact (ih (w.exit e.1 e.2)).trans (exit_size w e.1 e.2)

theorem next_size {w w' : World} {m : Moment} (h : w.next = (some m, w')) :
    w'.size + 1 = w.size := by
  rw [World.next] at h
  rcases hmoments : w.moments with _ | ⟨first, moments⟩
  · rw [hmoments] at h
    cases h
  · rw [hmoments] at h
    obtain ⟨-, rfl⟩ := Prod.mk.inj h
    rw [exitAll_size, World.size, World.size, hmoments]
    rfl

theorem enter_decreases : Decreases World.size 1 enter := by
  intro w m w' h
  obtain ⟨first, w₁, hfirst, hm⟩ := exec_bind_eq_some.mp h
  rw [exec_modifyGet] at hfirst
  rcases hnext : w.next with ⟨first', w₂⟩
  rw [hnext] at hfirst
  obtain ⟨⟨⟩, rfl⟩ := Prod.mk.inj hfirst
  cases first' with
  | none => cases hm
  | some m' =>
    obtain ⟨-, rfl⟩ := Prod.mk.inj hm
    exact (next_size hnext).le

theorem record_decreases (e : Event) : Decreases World.size 0 (record e) :=
  decreases_modifyGet fun _ => Nat.le_refl _

theorem reap_size (pid : ℤ) (w : World) : (w.reap pid).2.size = w.size := by
  rw [World.reap]
  split <;> rfl

/-- A round of the loop that waits. -/
theorem waitpid_decreases (pid : ℤ) (child : ℕ) (nohang : Bool) :
    Decreases World.size 1 (waitpid pid child nohang) := by
  refine (record_decreases _).bind (e := 1) fun _ => Decreases.loop (fun _ => ?_) ()
  refine enter_decreases.bind (e := 0) fun m => ?_
  split
  · exact decreases_pure _
  · refine (decreases_modifyGet fun w => (reap_size pid w).le).bind (e := 0) fun result => ?_
    exact decreases_pure _

theorem now_decreases : Decreases World.size 1 now :=
  enter_decreases.bind (e := 0) fun _ => decreases_pure _

theorem poll_decreases : Decreases World.size 1 poll :=
  enter_decreases.bind (e := 0) fun _ => decreases_pure _

/-! ### The record -/

/-- What must have happened, and what not, before an event. -/
def Allowed (events : List Event) : Event → Prop
  | .forked _ child => ∀ pid, .forked pid child ∉ events
  | .exit child _ => ∃ pid, .forked pid child ∈ events
  | .kill pid child => .forked pid child ∈ events ∧ ∀ status, .reaped child status ∉ events
  | .waitpid pid child => .forked pid child ∈ events ∧ ∀ status, .reaped child status ∉ events
  | .reaped child status => .exit child status ∈ events ∧ ∀ status', .reaped child status' ∉ events
  | .returned child result => ∀ code, result = .exited code → .reaped child (.exited code) ∈ events

/-- Every event is allowed: children are reaped once, and after that they are neither killed nor
waited for. -/
def Proper : List Event → Prop
  | [] => True
  | e :: events => Allowed events e ∧ Proper events

/-- A child is created with one id. -/
theorem Proper.forked_unique : ∀ {events : List Event}, Proper events →
    ∀ {pid pid' : ℤ} {child : ℕ}, .forked pid child ∈ events → .forked pid' child ∈ events →
      pid = pid'
  | [], _, _, _, _, h, _ => absurd h List.not_mem_nil
  | e :: events, hproper, pid, pid', child, h, h' => by
    rcases List.mem_cons.mp h with rfl | h
    · rcases List.mem_cons.mp h' with h' | h'
      · exact (Event.forked.inj h').1.symm
      · exact absurd h' (hproper.1 pid')
    · rcases List.mem_cons.mp h' with h' | h'
      · rw [← h'] at hproper
        exact absurd h (hproper.1 pid)
      · exact hproper.2.forked_unique h h'

theorem Proper.exit_forked : ∀ {events : List Event}, Proper events → ∀ {child : ℕ}
    {status : Status}, .exit child status ∈ events → ∃ pid, .forked pid child ∈ events
  | [], _, _, _, h => absurd h List.not_mem_nil
  | e :: events, hproper, child, status, h => by
    obtain ⟨pid, hforked⟩ : ∃ pid, .forked pid child ∈ events := by
      rcases List.mem_cons.mp h with rfl | h
      · exact hproper.1
      · exact hproper.2.exit_forked h
    exact ⟨pid, List.mem_cons_of_mem _ hforked⟩

/-- A child is reaped with the status with which it has exited. -/
theorem Proper.reaped_exit : ∀ {events : List Event}, Proper events → ∀ {child : ℕ}
    {status : Status}, .reaped child status ∈ events → .exit child status ∈ events
  | [], _, _, _, h => absurd h List.not_mem_nil
  | e :: events, hproper, child, status, h => by
    rcases List.mem_cons.mp h with rfl | h
    · exact List.mem_cons_of_mem _ hproper.1.1
    · exact List.mem_cons_of_mem _ (hproper.2.reaped_exit h)

/-- What the record says of a child that has an id. -/
structure Unreaped (events : List Event) (pid : ℤ) (child : Child) : Prop where
  positive : 0 < pid
  forked : .forked pid child.number ∈ events
  not_reaped : ∀ status, .reaped child.number status ∉ events
  exited : ∀ status, child.status = some status → .exit child.number status ∈ events

/-- The record tells which children have an id. -/
structure World.Consistent (w : World) : Prop where
  proper : Proper w.events
  forked_lt : ∀ pid child, .forked pid child ∈ w.events → child < w.forked
  unreaped : ∀ pid child, w.children pid = some child → Unreaped w.events pid child
  reaped : ∀ pid child, .forked pid child ∈ w.events →
    (∃ status, .reaped child status ∈ w.events) ∨ ∃ status, w.children pid = some ⟨child, status⟩

theorem consistent_init (moments : List Moment) : (World.init moments).Consistent where
  proper := trivial
  forked_lt := fun _ _ h => absurd h List.not_mem_nil
  unreaped := by rintro pid child ⟨⟩
  reaped := fun _ _ h => absurd h List.not_mem_nil

/-- The children that have not been reaped, with their ids. -/
def World.unreaped (w : World) : Set (ℤ × ℕ) :=
  {x | ∃ status, w.children x.1 = some ⟨x.2, status⟩}

/-- The unreaped children are those of `U`. -/
structure World.Owned (U : Set (ℤ × ℕ)) (w : World) : Prop where
  consistent : w.Consistent
  unreaped : w.unreaped = U

variable {w : World} {U : Set (ℤ × ℕ)} {events : List Event} {pid : ℤ} {child : ℕ}

theorem owned_init (moments : List Moment) : (World.init moments).Owned ∅ := by
  refine ⟨consistent_init moments, Set.eq_empty_iff_forall_notMem.mpr ?_⟩
  rintro x ⟨status, ⟨⟩⟩

/-- The events that change which children there are. -/
def Event.IsStep : Event → Prop
  | .forked .. => True
  | .reaped .. => True
  | _ => False

theorem Unreaped.cons {c : Child} (h : Unreaped events pid c) {e : Event}
    (he : ∀ status, e ≠ .reaped c.number status) : Unreaped (e :: events) pid c where
  positive := h.positive
  forked := List.mem_cons_of_mem _ h.forked
  not_reaped := fun status hmem =>
    (List.mem_cons.mp hmem).elim (fun heq => he status heq.symm) (h.not_reaped status)
  exited := fun status hstatus => List.mem_cons_of_mem _ (h.exited status hstatus)

theorem World.Consistent.record (h : w.Consistent) {e : Event} (he : Allowed w.events e)
    (hstep : ¬e.IsStep) : (w.record e).Consistent where
  proper := ⟨he, h.proper⟩
  forked_lt := by
    intro pid child hmem
    rcases List.mem_cons.mp hmem with rfl | hmem
    · exact absurd trivial hstep
    · exact h.forked_lt pid child hmem
  unreaped := by
    refine fun pid c hc => (h.unreaped pid c hc).cons ?_
    rintro status rfl
    exact hstep trivial
  reaped := by
    intro pid child hmem
    rcases List.mem_cons.mp hmem with rfl | hmem
    · exact absurd trivial hstep
    · refine (h.reaped pid child hmem).imp_left ?_
      rintro ⟨status, hstatus⟩
      exact ⟨status, List.mem_cons_of_mem _ hstatus⟩

theorem World.Owned.record (h : w.Owned U) {e : Event} (he : Allowed w.events e)
    (hstep : ¬e.IsStep) : (w.record e).Owned U :=
  ⟨h.consistent.record he hstep, h.unreaped⟩

theorem World.Owned.of_eq {V : Set (ℤ × ℕ)} (h : w.Owned U) (heq : U = V) : w.Owned V := heq ▸ h

/-- A child of `U` has not been reaped. -/
theorem World.Owned.allowed (h : w.Owned U) (hmem : (pid, child) ∈ U) :
    .forked pid child ∈ w.events ∧ ∀ status, .reaped child status ∉ w.events := by
  rw [← h.unreaped] at hmem
  obtain ⟨status, hchild⟩ := hmem
  have hentry := h.consistent.unreaped pid _ hchild
  exact ⟨hentry.forked, hentry.not_reaped⟩

/-! ### What happens to the children -/

/-- A running child gets its status. -/
theorem World.Owned.exit (h : w.Owned U) (pid : ℤ) (status : Status) :
    (w.exit pid status).Owned U := by
  rw [World.exit]
  split
  swap
  · exact h
  rename_i child hchild
  obtain ⟨hconsistent, hunreaped⟩ := h
  have hentry := hconsistent.unreaped pid _ hchild
  have hrecord := hconsistent.record (e := .exit child status) ⟨pid, hentry.forked⟩ id
  refine ⟨⟨hrecord.proper, hrecord.forked_lt, ?_, ?_⟩, ?_⟩
  · intro pid' c hc
    replace hc : Function.update w.children pid (some ⟨child, some status⟩) pid' = some c := hc
    by_cases hpid : pid' = pid
    · subst hpid
      rw [Function.update_self] at hc
      obtain rfl := Option.some.inj hc
      refine ⟨hentry.positive, List.mem_cons_of_mem _ hentry.forked, ?_, ?_⟩
      · exact (hrecord.unreaped pid' ⟨child, none⟩ hchild).not_reaped
      · rintro _ ⟨⟩
        exact List.mem_cons_self ..
    · rw [Function.update_of_ne hpid] at hc
      exact hrecord.unreaped pid' c hc
  · intro pid' child' hmem
    refine (hrecord.reaped pid' child' hmem).imp_right ?_
    rintro ⟨status', hstatus'⟩
    by_cases hpid : pid' = pid
    · subst hpid
      obtain rfl : child = child' :=
        (Child.mk.inj (Option.some.inj (hchild.symm.trans hstatus'))).1
      exact ⟨some status, Function.update_self ..⟩
    · exact ⟨status', (Function.update_of_ne hpid ..).trans hstatus'⟩
  · rw [← hunreaped]
    ext ⟨pid', child'⟩
    by_cases hpid : pid' = pid
    · subst hpid
      simp [World.unreaped, World.record, hchild]
    · simp [World.unreaped, World.record, Function.update_of_ne hpid]

theorem World.Owned.exitAll (h : w.Owned U) (exits : List (ℤ × Status)) :
    (w.exitAll exits).Owned U := by
  induction exits generalizing w with
  | nil => exact h
  | cons e exits ih => exact ih (h.exit e.1 e.2)

/-- A child that has exited gives up its id. -/
theorem World.Owned.reap (h : w.Owned U) (hmem : (pid, child) ∈ U) {status : Status}
    (hchild : w.children pid = some ⟨child, some status⟩) :
    ({ w with children := Function.update w.children pid none }.record
      (.reaped child status)).Owned (U \ {(pid, child)}) := by
  obtain ⟨hforked, hnot⟩ := h.allowed hmem
  obtain ⟨hconsistent, hunreaped⟩ := h
  have hentry := hconsistent.unreaped pid _ hchild
  refine ⟨⟨⟨⟨hentry.exited status rfl, hnot⟩, hconsistent.proper⟩, ?_, ?_, ?_⟩, ?_⟩
  · intro pid' child' hmem'
    exact hconsistent.forked_lt pid' child' ((List.mem_cons.mp hmem').resolve_left (by rintro ⟨⟩))
  · intro pid' c hc
    replace hc : Function.update w.children pid none pid' = some c := hc
    by_cases hpid : pid' = pid
    · rw [hpid, Function.update_self] at hc
      cases hc
    · rw [Function.update_of_ne hpid] at hc
      have hentry' := hconsistent.unreaped pid' c hc
      refine hentry'.cons ?_
      -- Another id is the id of another child.
      rintro status' ⟨⟩
      exact hpid (hconsistent.proper.forked_unique hentry'.forked hforked)
  · intro pid' child' hmem'
    have hmem'' := (List.mem_cons.mp hmem').resolve_left (by rintro ⟨⟩)
    by_cases hpid : pid' = pid
    · subst hpid
      rcases hconsistent.reaped pid' child' hmem'' with ⟨status', hstatus'⟩ | ⟨status', hstatus'⟩
      · exact Or.inl ⟨status', List.mem_cons_of_mem _ hstatus'⟩
      · obtain rfl : child = child' :=
          (Child.mk.inj (Option.some.inj (hchild.symm.trans hstatus'))).1
        exact Or.inl ⟨status, List.mem_cons_self ..⟩
    · rcases hconsistent.reaped pid' child' hmem'' with ⟨status', hstatus'⟩ | ⟨status', hstatus'⟩
      · exact Or.inl ⟨status', List.mem_cons_of_mem _ hstatus'⟩
      · exact Or.inr ⟨status', (Function.update_of_ne hpid ..).trans hstatus'⟩
  · rw [← hunreaped]
    ext ⟨pid', child'⟩
    by_cases hpid : pid' = pid
    · subst hpid
      simp [World.unreaped, World.record, hchild, eq_comm]
    · simp [World.unreaped, World.record, hpid]

/-- A new child gets an id that is free. -/
theorem World.Owned.fork (h : w.Owned U) (hpid : 0 < pid) (hfree : w.children pid = none) :
    ({ w with
        children := Function.update w.children pid (some ⟨w.forked, none⟩)
        forked := w.forked + 1 }.record (.forked pid w.forked)).Owned
      (insert (pid, w.forked) U) := by
  obtain ⟨hconsistent, hunreaped⟩ := h
  have hnew : ∀ pid', .forked pid' w.forked ∉ w.events := fun pid' hmem =>
    absurd (hconsistent.forked_lt pid' _ hmem) (Nat.lt_irrefl _)
  have hnot : ∀ status, .reaped w.forked status ∉ w.events := by
    intro status hmem
    obtain ⟨pid', hforked⟩ :=
      hconsistent.proper.exit_forked (hconsistent.proper.reaped_exit hmem)
    exact hnew pid' hforked
  refine ⟨⟨⟨hnew, hconsistent.proper⟩, ?_, ?_, ?_⟩, ?_⟩
  · intro pid' child' hmem'
    rcases List.mem_cons.mp hmem' with ⟨⟨⟩⟩ | hmem'
    · exact Nat.lt_succ_self _
    · exact Nat.lt_succ_of_lt (hconsistent.forked_lt pid' child' hmem')
  · intro pid' c hc
    replace hc : Function.update w.children pid (some ⟨w.forked, none⟩) pid' = some c := hc
    by_cases hpid' : pid' = pid
    · rw [hpid', Function.update_self] at hc
      obtain rfl := Option.some.inj hc
      rw [hpid']
      refine ⟨hpid, List.mem_cons_self .., ?_, by rintro _ ⟨⟩⟩
      exact fun status hmem => hnot status ((List.mem_cons.mp hmem).resolve_left (by rintro ⟨⟩))
    · rw [Function.update_of_ne hpid'] at hc
      exact (hconsistent.unreaped pid' c hc).cons (by rintro status' ⟨⟩)
  · intro pid' child' hmem'
    rcases List.mem_cons.mp hmem' with ⟨⟨⟩⟩ | hmem'
    · exact Or.inr ⟨none, Function.update_self ..⟩
    · rcases hconsistent.reaped pid' child' hmem' with ⟨status', hstatus'⟩ | ⟨status', hstatus'⟩
      · exact Or.inl ⟨status', List.mem_cons_of_mem _ hstatus'⟩
      · have hpid' : pid' ≠ pid := by
          rintro rfl
          rw [hfree] at hstatus'
          cases hstatus'
        exact Or.inr ⟨status', (Function.update_of_ne hpid' ..).trans hstatus'⟩
  · rw [← hunreaped]
    ext ⟨pid', child'⟩
    by_cases hpid' : pid' = pid
    · subst hpid'
      simp [World.unreaped, World.record, hfree, eq_comm]
    · simp [World.unreaped, World.record, hpid']

/-! ### The calls -/

theorem record_spec {e : Event} (hstep : ¬e.IsStep)
    (he : ∀ w : World, w.Owned U → Allowed w.events e) :
    Triple (World.Owned U) (record e) (fun _ => World.Owned U) World.Consistent :=
  Triple.modify fun w h => h.record (he w h) hstep

theorem enter_spec : Triple (World.Owned U) enter (fun _ => World.Owned U) World.Consistent := by
  refine (Triple.modifyGet (Q := fun _ => World.Owned U) fun w h => ?_).bind fun m => ?_
  · rw [World.next]
    split
    · exact h
    · rename_i m moments _
      have hnext : ({ w with moments := moments } : World).Owned U :=
        ⟨⟨h.consistent.proper, h.consistent.forked_lt, h.consistent.unreaped,
          h.consistent.reaped⟩, h.unreaped⟩
      exact hnext.exitAll m.exits
  · cases m with
    | none => exact Triple.failure fun w h => h.consistent
    | some m => exact Triple.pure fun w h => h

/-- `kill` of a child that is not reaped. -/
theorem kill_spec (hmem : (pid, child) ∈ U) :
    Triple (World.Owned U) (kill pid child)
      (fun result w => w.Owned U ∧ (result = .ok ⟨⟩ ∨ result = .error .eintr))
      World.Consistent := by
  refine (record_spec (e := .kill pid child) id fun w h => h.allowed hmem).bind fun _ => ?_
  refine enter_spec.bind fun m => ?_
  split
  · exact Triple.pure fun w h => ⟨h, Or.inr rfl⟩
  · refine (Triple.get (Q := fun w w' => w = w' ∧ World.Owned U w)
      fun w h => ⟨rfl, h⟩).bind fun w => ?_
    refine Triple.pure ?_
    rintro _ ⟨rfl, h⟩
    have hchild : (w.children pid).isSome = true := by
      rw [← h.unreaped] at hmem
      obtain ⟨status, hchild⟩ := hmem
      rw [hchild]
      rfl
    rw [if_pos hchild]
    exact ⟨h, Or.inl rfl⟩

/-- The child, and no other, is reaped if its status is returned. -/
def Waited (U : Set (ℤ × ℕ)) (pid : ℤ) (child : ℕ) (result : Except Errno (Option Status))
    (w : World) : Prop :=
  match result with
  | .ok none => w.Owned U
  | .ok (some status) => w.Owned (U \ {(pid, child)}) ∧ .reaped child status ∈ w.events
  | .error e => w.Owned U ∧ e = .eintr

/-- `waitpid` for a child that is not reaped. Without `WNOHANG` it does not return zero. -/
theorem waitpid_spec (nohang : Bool) (hmem : (pid, child) ∈ U) :
    Triple (World.Owned U) (waitpid pid child nohang)
      (fun result w => Waited U pid child result w ∧ (nohang = false → result ≠ .ok none))
      World.Consistent := by
  refine (record_spec (e := .waitpid pid child) id fun w h => h.allowed hmem).bind fun _ => ?_
  refine Triple.loop (I := fun _ => World.Owned U) (fun _ w h => h.consistent) (fun _ => ?_) ()
  refine enter_spec.bind fun m => ?_
  split
  · exact Triple.pure fun w h => ⟨⟨h, rfl⟩, by rintro - ⟨⟩⟩
  · refine (Triple.modifyGet (Q := Waited U pid child) fun w h => ?_).bind fun result => ?_
    · have hchild := hmem
      rw [← h.unreaped] at hchild
      obtain ⟨status, hchild⟩ := hchild
      rw [World.reap, hchild]
      cases status with
      | none => exact h
      | some status => exact ⟨h.reap hmem hchild, List.mem_cons_self ..⟩
    · refine Triple.pure fun w h => ?_
      rcases result with e | _ | status
      · exact ⟨h, by rintro - ⟨⟩⟩
      · cases nohang
        · exact h
        · exact ⟨h, by rintro ⟨⟩⟩
      · exact ⟨h, by rintro - ⟨⟩⟩

/-- A new child has an id that no unreaped child has. -/
theorem fork_spec :
    Triple (World.Owned U) fork
      (fun result w => result.elim (w.Owned U) fun c =>
        w.Owned (insert c U) ∧ 0 < c.1 ∧ ∀ child, (c.1, child) ∉ U)
      World.Consistent := by
  refine enter_spec.bind fun m => Triple.modifyGet fun w h => ?_
  rw [World.fork]
  split
  · rename_i hfork
    obtain ⟨-, hpid, hfree⟩ := hfork
    have hfree := Option.isNone_iff_eq_none.mp hfree
    refine ⟨h.fork hpid hfree, hpid, fun child hmem => ?_⟩
    rw [← h.unreaped] at hmem
    obtain ⟨status, hchild⟩ := hmem
    rw [hfree] at hchild
    cases hchild
  · exact h

/-- The other calls do nothing to the children. -/
theorem attempt_spec : Triple (World.Owned U) attempt (fun _ => World.Owned U) World.Consistent :=
  enter_spec.bind fun _ => Triple.pure fun _ h => h

theorem now_spec : Triple (World.Owned U) now (fun _ => World.Owned U) World.Consistent :=
  enter_spec.bind fun _ => Triple.pure fun _ h => h

theorem poll_spec : Triple (World.Owned U) poll (fun _ => World.Owned U) World.Consistent :=
  enter_spec.bind fun _ => Triple.pure fun _ h => h

theorem read_spec : Triple (World.Owned U) read (fun _ => World.Owned U) World.Consistent :=
  enter_spec.bind fun _ => Triple.pure fun _ h => h

end Subprocesses

end NgLog
