import Mathlib.Order.BooleanAlgebra.Set
import NgLog.Subprocess.System

/-!
# Subprocess

A `Subprocess` owns the child that it has spawned, by its id. `Reset` and `Wait` kill it if need be,
and reap it. There are two specialisations, for normal use and for signal handlers; the normal one
is built on `posix_spawn` or on `fork`. They differ in which calls they repeat when interrupted, in
how they learn that the program could not be executed, and in how they measure time.

The pipes to the child, and their descriptors, are left out, but for the calls that may fail. The
child itself is part of the system.

## Main definitions

* `Subprocess`, `Variant` — the class, and its specialisations
* `reset`, `spawn`, `wait` — the member functions that call the system

## Main results

* `failureRetry_eq`, `waitLoop_eq` — the loops of the source
* `reset_spec`, `spawn_spec`, `wait_spec` — what they do to the children that are not reaped
-/

namespace NgLog

namespace Subprocesses

open Programs

/-! ### The class -/

/-- The specialisations: `kNormal` with `posix_spawn`, `kNormal` with `fork`, and `kSignalSafe`. -/
inductive Variant
  | posixSpawn
  | fork
  | signalSafe
deriving DecidableEq

/-- `Subprocess`, with the number of its child as a ghost. -/
structure Subprocess where
  pid : ℤ
  child : ℕ

/-- The constructor. -/
def Subprocess.init : Subprocess := ⟨-1, 0⟩

/-- A call has failed with `EINTR`. -/
def interrupted {α : Type} : Except Errno α → Bool
  | .error .eintr => true
  | _ => false

/-- `FailureRetry`, and in the specialisation for signal handlers `RetryKill`, `RetryWaitPid`,
`RetryPoll` and `RetryRead`. -/
def failureRetry {α : Type} (run : Sys (Except Errno α)) : Sys (Except Errno α) :=
  loop World.size
    (fun _ => do
      let result ← run
      return if interrupted result then .inl () else .inr result)
    ()

/-- `kill` where a child is disposed of. Only the specialisation for signal handlers repeats it. -/
def sigkill (v : Variant) (pid : ℤ) (child : ℕ) : Sys (Except Errno PUnit) :=
  match v with
  | .posixSpawn => kill pid child
  | .fork => kill pid child
  | .signalSafe => failureRetry (kill pid child)

/-- `Reset`. -/
def reset (v : Variant) (s : Subprocess) : Sys Subprocess := do
  if 0 ≤ s.pid then
    let _ ← sigkill v s.pid s.child
    let _ ← failureRetry (waitpid s.pid s.child false)
    return { s with pid := -1 }
  else return { s with pid := -1 }

/-! ### Spawning -/

/-- `SpawnProcessNormal` or `SpawnProcessWithFork`, in the parent. The first of these also fails
if it has no memory for the file actions. -/
def spawnProcess (v : Variant) : Sys (Option (ℤ × ℕ)) :=
  match v with
  | .posixSpawn => do
    let initialized ← attempt
    if !initialized then return none
    else
      let added ← attempt
      if !added then return none else fork
  | .fork => fork
  | .signalSafe => fork

/-- The pipe through which the child reports that it cannot execute the program. -/
def createExecErrorPipe (v : Variant) : Sys Bool :=
  match v with
  | .posixSpawn => return true
  | .fork => attempt
  | .signalSafe => attempt

/-- What is read from that pipe is an error. -/
def execFails (v : Variant) : Sys Bool :=
  match v with
  | .posixSpawn => return false
  | .fork => do
    let bytes ← failureRetry read
    return bytes.toOption ≠ some 0
  | .signalSafe => do
    let bytes ← failureRetry read
    return bytes.toOption ≠ some 0

/-- `Spawn`. -/
def spawn (v : Variant) (s : Subprocess) : Sys (Bool × Subprocess) := do
  let s ← reset v s
  let stdin ← attempt
  if !stdin then return (false, s)
  else
    let stdout ← attempt
    if !stdout then return (false, s)
    else
      let execError ← createExecErrorPipe v
      if !execError then return (false, s)
      else
        let process ← spawnProcess v
        match process with
        | none => return (false, s)
        | some (pid, child) =>
          let fails ← execFails v
          if fails then
            let _ ← sigkill v pid child
            let _ ← failureRetry (waitpid pid child false)
            return (false, s)
          else return (true, ⟨pid, child⟩)

/-! ### Waiting -/

/-- How the loop of `Wait` ends. -/
inductive WaitEnd
  | exited (status : Status)
  /-- There is no such child. -/
  | unavailable
  /-- `wait_failed`. -/
  | failed
  | timeout

/-- A round of the loop: what is to be done if the child is running. -/
def waitRound {γ : Type} (s : Subprocess) (running : Sys (γ ⊕ WaitEnd)) : Sys (γ ⊕ WaitEnd) := do
  let result ← failureRetry (waitpid s.pid s.child true)
  match result with
  | .ok (some status) => return .inr (.exited status)
  | .error e => return .inr (if e = .echild then .unavailable else .failed)
  | .ok none => running

def kWaitPollIntervalMilliseconds : ℤ := 10

/-- The largest time of the clock, in nanoseconds. -/
def kClockMax : ℤ := 9223372036854775807

def kNanosecondsPerMillisecond : ℤ := 1000000

/-- The end of the wait, which saturates. -/
def deadline (time timeout : ℤ) : ℤ :=
  let longestTimeout := Int.tdiv (kClockMax - time) kNanosecondsPerMillisecond
  time + max 0 (min timeout longestTimeout) * kNanosecondsPerMillisecond

/-- A round with a deadline. It ends in `sleep_for`. -/
def normalRound (s : Subprocess) (deadline : ℤ) : Sys (ℤ ⊕ WaitEnd) :=
  waitRound s do
    let time ← now
    return if deadline ≤ time then .inr .timeout else .inl deadline

/-- A round with the milliseconds that remain, which `poll` counts. -/
def signalSafeRound (s : Subprocess) (remaining : ℤ) : Sys (ℤ ⊕ WaitEnd) :=
  waitRound s do
    if remaining ≤ 0 then return .inr .timeout
    else
      let wait := if kWaitPollIntervalMilliseconds ≤ remaining then kWaitPollIntervalMilliseconds
        else remaining
      let result ← failureRetry poll
      return match result with
        | .error _ => .inr .failed
        | .ok _ => .inl (remaining - wait)

/-- A round of either kind. -/
def round (v : Variant) (s : Subprocess) : ℤ → Sys (ℤ ⊕ WaitEnd) :=
  match v with
  | .posixSpawn => normalRound s
  | .fork => normalRound s
  | .signalSafe => signalSafeRound s

/-- The loop of `Wait`. -/
def waitLoop (v : Variant) (s : Subprocess) (limit : ℤ) : Sys WaitEnd :=
  loop World.size (round v s) limit

/-- The deadline, or the milliseconds that remain. -/
def limit (v : Variant) (timeout : ℤ) : Sys ℤ :=
  match v with
  | .posixSpawn => do
    let time ← now
    return deadline time timeout
  | .fork => do
    let time ← now
    return deadline time timeout
  | .signalSafe => return timeout

/-- The result for a child that has not been killed. -/
def Status.result : Status → SubprocessWaitResult
  | .exited code => .exited code
  | .signaled _ => .failed

/-- The result for a child that was to be killed. -/
def killedResult (waitFailed : Bool) (killResult : Except Errno PUnit)
    (waitResult : Except Errno (Option Status)) : SubprocessWaitResult :=
  match waitResult with
  | .ok (some status) =>
    match killResult with
    | .ok _ => if waitFailed then .failed else .timedOut
    | .error e => if waitFailed ∨ e ≠ .esrch then .failed else status.result
  | .ok none => .failed
  | .error e => if killResult.isOk ∧ e = .echild then .timedOut else .failed

/-- The end of `Wait`. -/
def finish (s : Subprocess) (waitFailed : Bool) : Sys (SubprocessWaitResult × Subprocess) := do
  let killResult ← failureRetry (kill s.pid s.child)
  let waitResult ← failureRetry (waitpid s.pid s.child false)
  return (killedResult waitFailed killResult waitResult, { s with pid := -1 })

/-- `Wait`. -/
def wait (v : Variant) (s : Subprocess) (timeout : ℤ) :
    Sys (SubprocessWaitResult × Subprocess) := do
  if s.pid < 0 then return (.failed, s)
  else
    let limit ← limit v timeout
    let ended ← waitLoop v s limit
    match ended with
    | .exited status => return (status.result, { s with pid := -1 })
    | .unavailable => return (.unavailable, { s with pid := -1 })
    | .failed => finish s true
    | .timeout => finish s false

/-! ### The loops -/

section Loops

variable {α : Type} {run : Sys (Except Errno α)}

/-- A call that is interrupted is made again. -/
theorem failureRetry_eq (h : Decreases World.size 1 run) :
    failureRetry run = do
      let result ← run
      if interrupted result then failureRetry run else return result := by
  have hbody : ∀ _ : Unit, Decreases World.size 1 (do
      let result ← run
      return if interrupted result then .inl () else .inr result : Sys (Unit ⊕ Except Errno α)) :=
    fun _ => h.bind (e := 0) fun _ => decreases_pure _
  refine (loop_eq hbody ()).trans ?_
  rw [bind_assoc]
  refine bind_congr fun result => ?_
  rw [pure_bind]
  split <;> rfl

theorem failureRetry_decreases (h : Decreases World.size 1 run) :
    Decreases World.size 1 (failureRetry run) :=
  Decreases.loop (fun _ => h.bind (e := 0) fun _ => decreases_pure _) ()

end Loops

theorem waitRound_decreases {γ : Type} (s : Subprocess) {running : Sys (γ ⊕ WaitEnd)}
    (h : Decreases World.size 0 running) : Decreases World.size 1 (waitRound s running) := by
  refine (failureRetry_decreases (waitpid_decreases _ _ _)).bind (e := 0) fun result => ?_
  rcases result with e | _ | status
  · exact decreases_pure _
  · exact h
  · exact decreases_pure _

theorem normalRound_decreases (s : Subprocess) (limit : ℤ) :
    Decreases World.size 1 (normalRound s limit) :=
  waitRound_decreases s ((now_decreases.bind (e := 0) fun _ => decreases_pure _).mono
    (Nat.zero_le _))

theorem signalSafeRound_decreases (s : Subprocess) (limit : ℤ) :
    Decreases World.size 1 (signalSafeRound s limit) := by
  refine waitRound_decreases s ?_
  split
  · exact decreases_pure _
  · exact ((failureRetry_decreases poll_decreases).bind (e := 0) fun _ => decreases_pure _).mono
      (Nat.zero_le _)

theorem round_decreases (v : Variant) (s : Subprocess) (limit : ℤ) :
    Decreases World.size 1 (round v s limit) := by
  cases v
  · exact normalRound_decreases s limit
  · exact normalRound_decreases s limit
  · exact signalSafeRound_decreases s limit

/-- After a round comes the next one, unless that has left the loop. -/
theorem waitLoop_eq (v : Variant) (s : Subprocess) (limit : ℤ) :
    waitLoop v s limit = round v s limit >>= Sum.elim (waitLoop v s) pure :=
  loop_eq (round_decreases v s) limit

/-! ### What they do to the children -/

/-- The child of the object, with its id. -/
def Subprocess.owned (s : Subprocess) : Set (ℤ × ℕ) := {x | 0 ≤ s.pid ∧ x = (s.pid, s.child)}

variable {U : Set (ℤ × ℕ)} {s : Subprocess} {pid : ℤ} {child : ℕ}

theorem owned_of_nonneg (h : 0 ≤ s.pid) : s.owned = {(s.pid, s.child)} := by
  ext x
  simp only [Subprocess.owned, h, true_and, Set.mem_ofPred_eq, Set.mem_singleton_iff]

theorem owned_of_neg (h : s.pid < 0) : s.owned = ∅ := by
  ext x
  simp only [Subprocess.owned, not_le.mpr h, false_and, Set.ofPred_false]

theorem owned_of_released (s : Subprocess) : ({ s with pid := -1 } : Subprocess).owned = ∅ :=
  owned_of_neg (show (-1 : ℤ) < 0 by decide)

theorem mem_of_owned (hs : s.owned ⊆ U) (h : 0 ≤ s.pid) : (s.pid, s.child) ∈ U :=
  hs ⟨h, rfl⟩

/-- A call that leaves the state when it is interrupted. -/
theorem failureRetry_spec {α : Type} {run : Sys (Except Errno α)}
    {Q : Except Errno α → World → Prop}
    (h : Triple (World.Owned U) run
      (fun result w => if interrupted result then w.Owned U else Q result w) World.Consistent) :
    Triple (World.Owned U) (failureRetry run) Q World.Consistent := by
  refine Triple.loop (I := fun _ => World.Owned U) (fun _ _ hw => hw.consistent) (fun _ => ?_) ()
  refine h.bind fun result => Triple.pure fun w hw => ?_
  cases hinterrupted : interrupted result
  · rwa [hinterrupted] at hw
  · rwa [hinterrupted] at hw

theorem retryKill_spec (hmem : (pid, child) ∈ U) :
    Triple (World.Owned U) (failureRetry (kill pid child))
      (fun result w => result = .ok ⟨⟩ ∧ w.Owned U) World.Consistent := by
  refine failureRetry_spec ((kill_spec hmem).weaken ?_)
  rintro result w ⟨hw, rfl | rfl⟩
  · exact ⟨rfl, hw⟩
  · exact hw

theorem sigkill_spec (v : Variant) (hmem : (pid, child) ∈ U) :
    Triple (World.Owned U) (sigkill v pid child) (fun _ => World.Owned U) World.Consistent := by
  cases v
  · exact (kill_spec hmem).weaken fun _ _ hw => hw.1
  · exact (kill_spec hmem).weaken fun _ _ hw => hw.1
  · exact (retryKill_spec hmem).weaken fun _ _ hw => hw.2

/-- The child is reaped when the wait returns, or it is running and the wait does not block. -/
theorem retryWaitpid_spec (nohang : Bool) (hmem : (pid, child) ∈ U) :
    Triple (World.Owned U) (failureRetry (waitpid pid child nohang))
      (fun result w => (∃ status, result = .ok (some status) ∧ w.Owned (U \ {(pid, child)}) ∧
        .reaped child status ∈ w.events) ∨ nohang = true ∧ result = .ok none ∧ w.Owned U)
      World.Consistent := by
  refine failureRetry_spec ((waitpid_spec nohang hmem).weaken ?_)
  rintro (e | _ | status) w ⟨hw, hnohang⟩
  · obtain ⟨hw, rfl⟩ := hw
    exact hw
  · exact Or.inr ⟨Bool.of_not_eq_false fun h => hnohang h rfl, rfl, hw⟩
  · exact Or.inl ⟨status, rfl, hw⟩

/-- A child is disposed of. -/
theorem dispose_spec (v : Variant) (hmem : (pid, child) ∈ U) {β : Type} {b : β} :
    Triple (World.Owned U) (do
      let _ ← sigkill v pid child
      let _ ← failureRetry (waitpid pid child false)
      return b) (fun result w => result = b ∧ w.Owned (U \ {(pid, child)})) World.Consistent := by
  refine (sigkill_spec v hmem).bind fun _ => (retryWaitpid_spec false hmem).bind fun result => ?_
  refine Triple.pure ?_
  rintro w (⟨status, -, hw, -⟩ | ⟨⟨⟩, -⟩)
  exact ⟨rfl, hw⟩

/-- `Reset` reaps the child of the object. -/
theorem reset_spec (v : Variant) (hs : s.owned ⊆ U) :
    Triple (World.Owned U) (reset v s)
      (fun s' w => s'.owned = ∅ ∧ w.Owned (U \ s.owned)) World.Consistent := by
  rw [reset]
  split
  · rename_i hpid
    refine (dispose_spec v (mem_of_owned hs hpid)).weaken ?_
    rintro _ w ⟨rfl, hw⟩
    rw [owned_of_nonneg hpid]
    exact ⟨owned_of_released s, hw⟩
  · rename_i hpid
    refine Triple.pure fun w hw => ⟨owned_of_released s, ?_⟩
    rw [owned_of_neg (not_le.mp hpid), Set.sdiff_empty]
    exact hw

theorem spawnProcess_spec (v : Variant) :
    Triple (World.Owned U) (spawnProcess v)
      (fun result w => result.elim (w.Owned U) fun c =>
        w.Owned (insert c U) ∧ 0 < c.1 ∧ ∀ child, (c.1, child) ∉ U)
      World.Consistent := by
  cases v
  · refine attempt_spec.bind fun initialized => ?_
    cases initialized
    · exact Triple.pure fun w hw => hw
    refine attempt_spec.bind fun added => ?_
    cases added
    · exact Triple.pure fun w hw => hw
    exact fork_spec
  · exact fork_spec
  · exact fork_spec

theorem createExecErrorPipe_spec (v : Variant) :
    Triple (World.Owned U) (createExecErrorPipe v) (fun _ => World.Owned U)
      World.Consistent := by
  cases v
  · exact Triple.pure fun w hw => hw
  · exact attempt_spec
  · exact attempt_spec

theorem execFails_spec (v : Variant) :
    Triple (World.Owned U) (execFails v) (fun _ => World.Owned U) World.Consistent := by
  have hread : Triple (World.Owned U) (failureRetry read) (fun _ => World.Owned U)
      World.Consistent := by
    refine failureRetry_spec (read_spec.weaken fun result w hw => ?_)
    split <;> exact hw
  cases v
  · exact Triple.pure fun w hw => hw
  · exact hread.bind fun _ => Triple.pure fun w hw => hw
  · exact hread.bind fun _ => Triple.pure fun w hw => hw

/-- What `Spawn` leaves: the old child is reaped, and the object may own a new one, with an id that
no other unreaped child has. -/
def Spawned (U : Set (ℤ × ℕ)) (s : Subprocess) (w : World) : Prop :=
  w.Owned (U ∪ s.owned) ∧ ∀ x ∈ s.owned, ∀ child, (x.1, child) ∉ U

theorem spawned_of_owned {w : World} (hs : s.owned = ∅) (hw : w.Owned U) : Spawned U s w := by
  rw [Spawned, hs, Set.union_empty]
  exact ⟨hw, fun x hx => absurd hx (Set.notMem_empty x)⟩

theorem spawn_spec (v : Variant) (hs : s.owned ⊆ U) :
    Triple (World.Owned U) (spawn v s) (fun result w => Spawned (U \ s.owned) result.2 w)
      World.Consistent := by
  refine (reset_spec v hs).bind fun s' => Triple.of_fact fun hs' => ?_
  have hfails : ∀ w : World, w.Owned (U \ s.owned) → Spawned (U \ s.owned) s' w := fun w =>
    spawned_of_owned hs'
  refine attempt_spec.bind fun stdin => ?_
  cases stdin
  · exact Triple.pure hfails
  refine attempt_spec.bind fun stdout => ?_
  cases stdout
  · exact Triple.pure hfails
  refine (createExecErrorPipe_spec v).bind fun execError => ?_
  cases execError
  · exact Triple.pure hfails
  refine (spawnProcess_spec v).bind fun process => ?_
  cases process with
  | none => exact Triple.pure hfails
  | some c =>
    obtain ⟨pid, child⟩ := c
    have hnew : (pid, child) ∈ insert (pid, child) (U \ s.owned) := Set.mem_insert ..
    refine Triple.mono (P := fun w => (0 < pid ∧ ∀ child, (pid, child) ∉ U \ s.owned) ∧
      w.Owned (insert (pid, child) (U \ s.owned))) ?_ (fun w hw => ⟨hw.2, hw.1⟩) fun _ _ hw => hw
    refine Triple.of_fact fun hfree => (execFails_spec v).bind fun fails => ?_
    cases fails
    · refine Triple.pure fun w hw => ?_
      have howned : (Subprocess.mk pid child).owned = {(pid, child)} :=
        owned_of_nonneg (s := ⟨pid, child⟩) hfree.1.le
      rw [Spawned, howned, Set.union_singleton]
      refine ⟨hw, ?_⟩
      rintro x rfl child'
      exact hfree.2 child'
    · refine (dispose_spec v hnew).weaken ?_
      rintro _ w ⟨rfl, hw⟩
      rw [Set.insert_sdiff_self_of_notMem (hfree.2 child)] at hw
      exact hfails w hw

/-! ### What `Wait` does -/

/-- While the loop waits, the child is not reaped; when it is left, the child is reaped if its
status is known. -/
def Ended (U : Set (ℤ × ℕ)) (s : Subprocess) (ended : WaitEnd) (w : World) : Prop :=
  match ended with
  | .exited status => w.Owned (U \ {(s.pid, s.child)}) ∧ .reaped s.child status ∈ w.events
  | .unavailable => False
  | .failed => w.Owned U
  | .timeout => w.Owned U

theorem waitRound_spec (hmem : (s.pid, s.child) ∈ U) {running : Sys (ℤ ⊕ WaitEnd)}
    (h : Triple (World.Owned U) running
      (fun r => Sum.elim (fun _ => World.Owned U) (Ended U s) r) World.Consistent) :
    Triple (World.Owned U) (waitRound s running)
      (fun r => Sum.elim (fun _ => World.Owned U) (Ended U s) r) World.Consistent := by
  refine (retryWaitpid_spec true hmem).bind fun result => ?_
  rcases result with e | _ | status
  · exact Triple.of_false (by rintro _ (⟨status, ⟨⟩, -⟩ | ⟨-, ⟨⟩, -⟩))
  · refine h.mono ?_ fun _ _ hw => hw
    rintro w (⟨status, ⟨⟩, -⟩ | ⟨-, -, hw⟩)
    exact hw
  · refine Triple.pure ?_
    rintro w (⟨_, ⟨⟩, hw⟩ | ⟨-, ⟨⟩, -⟩)
    exact hw

theorem round_spec (v : Variant) (hmem : (s.pid, s.child) ∈ U) (limit : ℤ) :
    Triple (World.Owned U) (round v s limit)
      (fun r => Sum.elim (fun _ => World.Owned U) (Ended U s) r) World.Consistent := by
  have hnormal : Triple (World.Owned U) (normalRound s limit)
      (fun r => Sum.elim (fun _ => World.Owned U) (Ended U s) r) World.Consistent := by
    refine waitRound_spec hmem (now_spec.bind fun time => Triple.pure fun w hw => ?_)
    split <;> exact hw
  cases v
  · exact hnormal
  · exact hnormal
  · refine waitRound_spec hmem ?_
    split
    · exact Triple.pure fun w hw => hw
    · have hpoll : Triple (World.Owned U) (failureRetry poll) (fun _ => World.Owned U)
          World.Consistent := by
        refine failureRetry_spec (poll_spec.weaken fun result w hw => ?_)
        split <;> exact hw
      refine hpoll.bind fun result => Triple.pure fun w hw => ?_
      cases result <;> exact hw

theorem waitLoop_spec (v : Variant) (hmem : (s.pid, s.child) ∈ U) (limit : ℤ) :
    Triple (World.Owned U) (waitLoop v s limit) (Ended U s) World.Consistent :=
  Triple.loop (I := fun _ => World.Owned U) (fun _ _ hw => hw.consistent)
    (fun limit => round_spec v hmem limit) limit

theorem limit_spec (v : Variant) (timeout : ℤ) :
    Triple (World.Owned U) (limit v timeout) (fun _ => World.Owned U) World.Consistent := by
  cases v
  · exact now_spec.bind fun _ => Triple.pure fun w hw => hw
  · exact now_spec.bind fun _ => Triple.pure fun w hw => hw
  · exact Triple.pure fun w hw => hw

/-- What `Wait` leaves: the object owns nothing, its child is reaped, and a code that is returned is
the one with which the child has exited. -/
def Concluded (U : Set (ℤ × ℕ)) (s : Subprocess) (result : SubprocessWaitResult × Subprocess)
    (w : World) : Prop :=
  result.2.owned = ∅ ∧ w.Owned (U \ s.owned) ∧
    ∀ code, result.1 = .exited code → .reaped s.child (.exited code) ∈ w.events

theorem finish_spec (hpid : 0 ≤ s.pid) (hmem : (s.pid, s.child) ∈ U) (waitFailed : Bool) :
    Triple (World.Owned U) (finish s waitFailed) (Concluded U s) World.Consistent := by
  refine (retryKill_spec hmem).bind fun killResult => Triple.of_fact ?_
  rintro rfl
  refine (retryWaitpid_spec false hmem).bind fun waitResult => Triple.pure ?_
  rintro w (⟨status, rfl, hw, -⟩ | ⟨⟨⟩, -⟩)
  rw [Concluded, owned_of_nonneg hpid]
  refine ⟨owned_of_released s, hw, ?_⟩
  cases waitFailed <;> rintro code ⟨⟩

theorem wait_spec (v : Variant) (hs : s.owned ⊆ U) (timeout : ℤ) :
    Triple (World.Owned U) (wait v s timeout) (Concluded U s) World.Consistent := by
  rw [wait]
  split
  · rename_i hpid
    refine Triple.pure fun w hw => ⟨owned_of_neg hpid, ?_, by rintro code ⟨⟩⟩
    rw [owned_of_neg hpid, Set.sdiff_empty]
    exact hw
  rename_i hpid
  replace hpid := not_lt.mp hpid
  have hmem := mem_of_owned hs hpid
  refine (limit_spec v timeout).bind fun limit => (waitLoop_spec v hmem limit).bind fun ended => ?_
  cases ended with
  | exited status =>
    refine Triple.pure fun w hw => ⟨owned_of_released s, ?_, fun code hcode => ?_⟩
    · rw [owned_of_nonneg hpid]
      exact hw.1
    · cases status with
      | exited code' =>
        obtain rfl := SubprocessWaitResult.exited.inj hcode
        exact hw.2
      | signaled signal => cases hcode
  | unavailable => exact Triple.of_false fun _ hw => hw
  | failed => exact finish_spec hpid hmem true
  | timeout => exact finish_spec hpid hmem false

end Subprocesses

end NgLog
