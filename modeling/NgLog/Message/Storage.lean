import NgLog.Message.Prefix
import NgLog.Support.Transition

/-!
# The memory of messages

The first message of a thread is composed in memory of the thread, and others while it lives in
memory from the heap. A fatal message that will end the process is composed in static memory
instead: the first of all in memory that is never used again, and every other one in the same memory
of its thread. The messages of all threads do not share memory, but for fatal messages of a thread,
of which one is composed while another one is.

## Main definitions

* `Memory`, `step` — the memory and the messages in it
* `view`, `ownStep` — each message for itself

## Main results

* `storage_exclusive` — which messages share memory, and which memory is in use
* `messages_isolated` — each message is composed as if it were the only one
-/

namespace NgLog

namespace MessageMemory

open Message (Severity)
open Transition

/-- The memory of a message: `thread_msg_data`, from the heap, `fatal_msg_data_exclusive` or
`fatal_msg_data_shared`. -/
inductive Storage (T : Type)
  | threadMsgData (t : T)
  | heap (address : ℕ)
  | fatalMsgDataExclusive
  | fatalMsgDataShared (t : T)
  deriving DecidableEq

/-- `LogMessage`: its thread, `data_` and `allocated_`. -/
structure LogMessage (T : Type) where
  thread : T
  data : Storage T
  allocated : Option ℕ

/-- The memory of all threads `T`, with message data `δ`, and the messages `ι` that live. -/
structure Memory (T ι δ : Type) where
  /-- `thread_data_available` -/
  threadDataAvailable : T → Bool
  /-- `fatal_msg_exclusive` -/
  fatalMsgExclusive : Bool
  contents : Storage T → δ
  /-- The addresses on the heap that are allocated. -/
  heap : List ℕ
  messages : ι → Option (LogMessage T)

/-- What a thread does with a message: `Init`, with `exit_on_dfatal`, the memory that the heap would
return, and the data as it sets them; whatever it does to the data; and the destructor. -/
inductive Action (T ι δ : Type)
  | init (t : T) (message : ι) (severity : Severity) (exitOnDfatal : Bool) (address : ℕ) (data : δ)
  | access (message : ι) (f : δ → δ)
  | destroy (message : ι)

variable {T ι δ : Type}

/-- No message has been made. -/
def initialMemory (contents : Storage T → δ) : Memory T ι δ where
  threadDataAvailable := fun _ => true
  fatalMsgExclusive := true
  contents := contents
  heap := []
  messages := fun _ => none

section Step

variable [DecidableEq T]

/-- `DataReleaser`, on the thread of the message. -/
def Memory.release (s : Memory T ι δ) (m : LogMessage T) : Memory T ι δ :=
  if m.data = .threadMsgData m.thread then
    { s with threadDataAvailable := Function.update s.threadDataAvailable m.thread true }
  else { s with heap := m.allocated.elim s.heap s.heap.erase }

variable [DecidableEq ι]

/-- A new message whose data are set. -/
def Memory.place (s : Memory T ι δ) (i : ι) (m : LogMessage T) (data : δ) : Memory T ι δ :=
  { s with
    contents := Function.update s.contents m.data data
    messages := Function.update s.messages i (some m) }

/-- `LogMessage::Init` -/
def Memory.init (s : Memory T ι δ) (t : T) (i : ι) (severity : Severity) (exitOnDfatal : Bool)
    (address : ℕ) (data : δ) : Memory T ι δ :=
  if severity ≠ .fatal ∨ !exitOnDfatal then
    if s.threadDataAvailable t then
      Memory.place { s with threadDataAvailable := Function.update s.threadDataAvailable t false } i
        ⟨t, .threadMsgData t, none⟩ data
    else Memory.place { s with heap := address :: s.heap } i ⟨t, .heap address, some address⟩ data
  else if s.fatalMsgExclusive then
    Memory.place { s with fatalMsgExclusive := false } i ⟨t, .fatalMsgDataExclusive, none⟩ data
  else s.place i ⟨t, .fatalMsgDataShared t, none⟩ data

/-- A step of a thread. A new message is an object of its own, and the heap returns memory that is
free. -/
def step (s : Memory T ι δ) : Action T ι δ → Option (Memory T ι δ)
  | .init t i severity exitOnDfatal address data =>
    if (s.messages i).isNone ∧ address ∉ s.heap then
      some (s.init t i severity exitOnDfatal address data)
    else none
  | .access i f => (s.messages i).map fun m =>
    { s with contents := Function.update s.contents m.data (f (s.contents m.data)) }
  | .destroy i => (s.messages i).map fun m =>
    Memory.release { s with messages := Function.update s.messages i none } m

end Step

/-! ### Which memory is in use -/

/-- What the memory of a message says about the rest. -/
def Memory.Uses (s : Memory T ι δ) (m : LogMessage T) : Prop :=
  match m.data with
  | .threadMsgData t => t = m.thread ∧ m.allocated = none ∧ s.threadDataAvailable t = false
  | .heap address => m.allocated = some address ∧ address ∈ s.heap
  | .fatalMsgDataExclusive => m.allocated = none ∧ s.fatalMsgExclusive = false
  | .fatalMsgDataShared t => t = m.thread ∧ m.allocated = none ∧ s.fatalMsgExclusive = false

/-- Messages do not share memory, but for fatal ones, and memory in use is that of messages. -/
structure Invariant (s : Memory T ι δ) : Prop where
  uses : ∀ i m, s.messages i = some m → s.Uses m
  distinct : ∀ i j m m', s.messages i = some m → s.messages j = some m' → m.data = m'.data →
    i = j ∨ m.data = .fatalMsgDataShared m.thread
  taken : ∀ t, s.threadDataAvailable t = false →
    ∃ i m, s.messages i = some m ∧ m.data = .threadMsgData t
  allocated : ∀ address ∈ s.heap, ∃ i m, s.messages i = some m ∧ m.data = .heap address
  nodup : s.heap.Nodup

theorem invariant_initial (contents : Storage T → δ) :
    Invariant (initialMemory contents : Memory T ι δ) where
  uses := fun _ m h => absurd h.symm (Option.some_ne_none m)
  distinct := fun _ _ m _ h => absurd h.symm (Option.some_ne_none m)
  taken := fun _ h => absurd h.symm Bool.false_ne_true
  allocated := fun _ h => absurd h List.not_mem_nil
  nodup := List.nodup_nil

theorem Memory.Uses.mono {s s' : Memory T ι δ} {m : LogMessage T} (h : s.Uses m)
    (havailable : ∀ t, s.threadDataAvailable t = false → s'.threadDataAvailable t = false)
    (hexclusive : s.fatalMsgExclusive = false → s'.fatalMsgExclusive = false)
    (hheap : ∀ address ∈ s.heap, address ∈ s'.heap) : s'.Uses m := by
  rw [Memory.Uses] at h ⊢
  cases hdata : m.data with
  | threadMsgData t =>
    rw [hdata] at h
    exact ⟨h.1, h.2.1, havailable t h.2.2⟩
  | heap address =>
    rw [hdata] at h
    exact ⟨h.1, hheap address h.2⟩
  | fatalMsgDataExclusive =>
    rw [hdata] at h
    exact ⟨h.1, hexclusive h.2⟩
  | fatalMsgDataShared t =>
    rw [hdata] at h
    exact ⟨h.1, h.2.1, hexclusive h.2.2⟩

/-! ### The memory of a new message -/

section Places

variable [DecidableEq T]

/-- The memory that a new message gets. -/
inductive Places (s : Memory T ι δ) (t : T) (address : ℕ) : Memory T ι δ → LogMessage T → Prop
  | thread (h : s.threadDataAvailable t = true) :
    Places s t address
      { s with threadDataAvailable := Function.update s.threadDataAvailable t false }
      ⟨t, .threadMsgData t, none⟩
  | heap (h : s.threadDataAvailable t = false) :
    Places s t address { s with heap := address :: s.heap } ⟨t, .heap address, some address⟩
  | exclusive (h : s.fatalMsgExclusive = true) :
    Places s t address { s with fatalMsgExclusive := false } ⟨t, .fatalMsgDataExclusive, none⟩
  | shared (h : s.fatalMsgExclusive = false) : Places s t address s ⟨t, .fatalMsgDataShared t, none⟩

variable {s s₁ : Memory T ι δ} {t : T} {address : ℕ} {m : LogMessage T}

theorem Places.messages (hplaces : Places s t address s₁ m) : s₁.messages = s.messages := by
  cases hplaces <;> rfl

/-- The new message has memory of its own, or is one of the fatal ones. -/
theorem Places.fresh (hplaces : Places s t address s₁ m) (h : Invariant s)
    (haddress : address ∉ s.heap) {j : ι} {m' : LogMessage T} (hj : s.messages j = some m')
    (hdata : m'.data = m.data) :
    m.data = .fatalMsgDataShared m.thread := by
  have huses := h.uses j m' hj
  rw [Memory.Uses, hdata] at huses
  cases hplaces with
  | thread havailable => exact absurd (huses.2.2.symm.trans havailable) Bool.false_ne_true
  | heap _ => exact absurd huses.2 haddress
  | exclusive hexclusive => exact absurd (huses.2.symm.trans hexclusive) Bool.false_ne_true
  | shared _ => rfl

/-- A thread's memory becomes available only when the message in it is destroyed. -/
theorem update_eq_false {available : T → Bool} {t' : T} (h : available t' = false) :
    Function.update available t false t' = false := by
  by_cases ht : t' = t
  · rw [ht, Function.update_self]
  · rwa [Function.update_of_ne ht]

/-- The new message uses its memory, and the others theirs as before. -/
theorem Places.uses (hplaces : Places s t address s₁ m) :
    s₁.Uses m ∧ ∀ m', s.Uses m' → s₁.Uses m' := by
  cases hplaces with
  | thread _ =>
    refine ⟨⟨rfl, rfl, Function.update_self ..⟩, fun m' h => ?_⟩
    exact h.mono (fun t' ht => update_eq_false ht) id fun _ ha => ha
  | heap _ =>
    refine ⟨⟨rfl, List.mem_cons_self⟩, fun m' h => ?_⟩
    exact h.mono (fun _ ht => ht) id fun _ ha => List.mem_cons_of_mem _ ha
  | exclusive _ =>
    refine ⟨⟨rfl, rfl⟩, fun m' h => ?_⟩
    exact h.mono (fun _ ht => ht) (fun _ => rfl) fun _ ha => ha
  | shared hexclusive => exact ⟨⟨rfl, rfl, hexclusive⟩, fun _ h => h⟩

/-- What is taken in addition is the memory of the new message. -/
theorem Places.taken (hplaces : Places s t address s₁ m) :
    (∀ t', s₁.threadDataAvailable t' = false → s.threadDataAvailable t' = false ∨
      m.data = .threadMsgData t') ∧
      ∀ a ∈ s₁.heap, a ∈ s.heap ∨ m.data = .heap a := by
  cases hplaces with
  | thread _ =>
    refine ⟨fun t' ht => ?_, fun _ => .inl⟩
    by_cases heq : t' = t
    · exact .inr (congrArg Storage.threadMsgData heq.symm)
    · exact .inl ((Function.update_of_ne heq ..).symm.trans ht)
  | heap _ =>
    refine ⟨fun _ => .inl, fun a ha => ?_⟩
    exact (List.mem_cons.mp ha).symm.imp id fun heq => congrArg Storage.heap heq.symm
  | exclusive _ => exact ⟨fun _ => .inl, fun _ => .inl⟩
  | shared _ => exact ⟨fun _ => .inl, fun _ => .inl⟩

theorem Places.nodup (hplaces : Places s t address s₁ m) (haddress : address ∉ s.heap)
    (h : s.heap.Nodup) :
    s₁.heap.Nodup := by
  cases hplaces with
  | heap _ => exact List.nodup_cons.mpr ⟨haddress, h⟩
  | _ => exact h

/-! ### Releasing memory -/

/-- The memory of a message is released, and nothing else. -/
theorem release_spec (huses : s.Uses m) (hnodup : s.heap.Nodup) :
    (∀ t, (s.release m).threadDataAvailable t = false ↔
      s.threadDataAvailable t = false ∧ m.data ≠ .threadMsgData t) ∧
    (∀ a, a ∈ (s.release m).heap ↔ a ∈ s.heap ∧ m.data ≠ .heap a) ∧
    (s.release m).heap.Nodup ∧ (s.release m).fatalMsgExclusive = s.fatalMsgExclusive := by
  obtain ⟨thread, data, allocated⟩ := m
  cases data with
  | threadMsgData t =>
    obtain ⟨rfl, -, -⟩ := huses
    rw [Memory.release, if_pos rfl]
    refine ⟨fun t' => ?_, fun a => (and_iff_left (by simp)).symm, hnodup, rfl⟩
    dsimp only
    by_cases ht : t' = t
    · simp [ht]
    · simp [ht, Ne.symm ht]
  | heap address =>
    obtain ⟨rfl, -⟩ := huses
    rw [Memory.release, if_neg (by simp)]
    refine ⟨fun t' => (and_iff_left (by simp)).symm, fun a => ?_, hnodup.erase address, rfl⟩
    dsimp only [Option.elim]
    rw [hnodup.mem_erase_iff, and_comm, Ne, Ne, Storage.heap.injEq, eq_comm]
  | fatalMsgDataExclusive =>
    obtain ⟨rfl, -⟩ := huses
    rw [Memory.release, if_neg (by simp)]
    exact ⟨fun t' => (and_iff_left (by simp)).symm,
      fun a => (and_iff_left (by simp)).symm, hnodup, rfl⟩
  | fatalMsgDataShared t =>
    obtain ⟨rfl, rfl, -⟩ := huses
    rw [Memory.release, if_neg (by simp)]
    exact ⟨fun t' => (and_iff_left (by simp)).symm,
      fun a => (and_iff_left (by simp)).symm, hnodup, rfl⟩

theorem messages_release (s : Memory T ι δ) (m : LogMessage T) :
    (s.release m).messages = s.messages := by
  rw [Memory.release]
  split <;> rfl

theorem fatalMsgExclusive_release (s : Memory T ι δ) (m : LogMessage T) :
    (s.release m).fatalMsgExclusive = s.fatalMsgExclusive := by
  rw [Memory.release]
  split <;> rfl

theorem contents_release (s : Memory T ι δ) (m : LogMessage T) :
    (s.release m).contents = s.contents := by
  rw [Memory.release]
  split <;> rfl

end Places

theorem update_eq_some [DecidableEq ι] {messages : ι → Option (LogMessage T)}
    {new : Option (LogMessage T)} {i j : ι} {m' : LogMessage T} :
    Function.update messages i new j = some m' ↔
      j = i ∧ new = some m' ∨ j ≠ i ∧ messages j = some m' := by
  by_cases hj : j = i
  · simp [hj]
  · simp [hj]

section Steps

variable [DecidableEq T] [DecidableEq ι] {s s₁ : Memory T ι δ} {t : T} {i : ι} {address : ℕ}
  {m : LogMessage T}

theorem init_cases (s : Memory T ι δ) (t : T) (i : ι) (severity : Severity) (exitOnDfatal : Bool)
    (address : ℕ) (data : δ) : ∃ s₁ m, Places s t address s₁ m ∧
      s.init t i severity exitOnDfatal address data = s₁.place i m data := by
  rw [Memory.init]
  split
  · cases havailable : s.threadDataAvailable t with
    | true => exact ⟨_, _, .thread havailable, rfl⟩
    | false => exact ⟨_, _, .heap havailable, rfl⟩
  · cases hexclusive : s.fatalMsgExclusive with
    | true => exact ⟨_, _, .exclusive hexclusive, rfl⟩
    | false => exact ⟨_, _, .shared hexclusive, rfl⟩

theorem messages_place (s : Memory T ι δ) (i : ι) (m : LogMessage T) (data : δ) :
    (s.place i m data).messages = Function.update s.messages i (some m) := rfl

theorem contents_place (s : Memory T ι δ) (i : ι) (m : LogMessage T) (data : δ) :
    (s.place i m data).contents = Function.update s.contents m.data data := rfl

theorem invariant_place (h : Invariant s) (hplaces : Places s t address s₁ m)
    (hnew : s.messages i = none) (haddress : address ∉ s.heap) (data : δ) :
    Invariant (s₁.place i m data) := by
  have hmessages : ∀ {j : ι} {m' : LogMessage T}, (s₁.place i m data).messages j = some m' ↔
      j = i ∧ m = m' ∨ j ≠ i ∧ s.messages j = some m' := by
    intro j m'
    rw [messages_place, update_eq_some, hplaces.messages, Option.some.injEq]
  have hold : ∀ {j : ι} {m' : LogMessage T}, s.messages j = some m' →
      (s₁.place i m data).messages j = some m' := by
    intro j m' hj
    refine hmessages.mpr (.inr ⟨fun hji => ?_, hj⟩)
    rw [hji, hnew] at hj
    cases hj
  have hown : (s₁.place i m data).messages i = some m := hmessages.mpr (.inl ⟨rfl, rfl⟩)
  refine ⟨fun j m' hj => ?_, fun j k m' m'' hj hk hdata => ?_, fun t' ht => ?_, fun a ha => ?_, ?_⟩
  · rcases hmessages.mp hj with ⟨-, rfl⟩ | ⟨-, hj⟩
    · exact hplaces.uses.1
    · exact hplaces.uses.2 m' (h.uses j m' hj)
  · rcases hmessages.mp hj with ⟨hji, rfl⟩ | ⟨-, hj⟩
    · rcases hmessages.mp hk with ⟨hki, -⟩ | ⟨-, hk⟩
      · exact .inl (hji.trans hki.symm)
      · exact .inr (hplaces.fresh h haddress hk hdata.symm)
    · rcases hmessages.mp hk with ⟨-, rfl⟩ | ⟨-, hk⟩
      · have hshared := hplaces.fresh h haddress hj hdata
        have huses := h.uses j m' hj
        rw [Memory.Uses, hdata, hshared] at huses
        right
        rw [hdata, hshared, huses.1]
      · exact h.distinct j k m' m'' hj hk hdata
  · rcases hplaces.taken.1 t' ht with ht | hdata
    · obtain ⟨j, m', hj, hdata⟩ := h.taken t' ht
      exact ⟨j, m', hold hj, hdata⟩
    · exact ⟨i, m, hown, hdata⟩
  · rcases hplaces.taken.2 a ha with ha | hdata
    · obtain ⟨j, m', hj, hdata⟩ := h.allocated a ha
      exact ⟨j, m', hold hj, hdata⟩
    · exact ⟨i, m, hown, hdata⟩
  · exact hplaces.nodup haddress h.nodup

theorem invariant_destroy (h : Invariant s) (hi : s.messages i = some m) :
    Invariant (Memory.release { s with messages := Function.update s.messages i none } m) := by
  have hspec : ∀ s' : Memory T ι δ, s'.Uses m → s'.heap.Nodup → _ :=
    fun s' => release_spec (s := s') (m := m)
  obtain ⟨havailable, hheap, hnodup, hexclusive⟩ :=
    hspec { s with messages := Function.update s.messages i none } (h.uses i m hi) h.nodup
  have hmessages : ∀ {j : ι} {m' : LogMessage T},
      (Memory.release { s with messages := Function.update s.messages i none } m).messages
        j = some m' ↔
        j ≠ i ∧ s.messages j = some m' := by
    intro j m'
    rw [messages_release, update_eq_some, or_iff_right (by simp)]
  -- The others are not in the memory that is released.
  have hother : ∀ {j : ι} {m' : LogMessage T}, j ≠ i → s.messages j = some m' →
      m.data = m'.data → m.data = .fatalMsgDataShared m.thread := fun hne hj hdata =>
    (h.distinct i _ m _ hi hj hdata).resolve_left (Ne.symm hne)
  have hkept : ∀ {j : ι} {m' : LogMessage T}, s.messages j = some m' → m.data ≠ m'.data →
      (Memory.release { s with messages := Function.update s.messages i none } m).messages j =
        some m' := by
    intro j m' hj hdata
    refine hmessages.mpr ⟨fun hji => ?_, hj⟩
    rw [hji, hi] at hj
    cases hj
    exact hdata rfl
  refine ⟨fun j m' hj => ?_, fun j k m' m'' hj hk => ?_, fun t ht => ?_, fun a ha => ?_, hnodup⟩
  · obtain ⟨hne, hj⟩ := hmessages.mp hj
    have huses := h.uses j m' hj
    rw [Memory.Uses] at huses ⊢
    cases hdata : m'.data with
    | threadMsgData t =>
      rw [hdata] at huses
      refine ⟨huses.1, huses.2.1, (havailable t).mpr ⟨huses.2.2, fun heq => ?_⟩⟩
      have hshared := hother hne hj (heq.trans hdata.symm)
      rw [heq] at hshared
      cases hshared
    | heap address =>
      rw [hdata] at huses
      refine ⟨huses.1, (hheap address).mpr ⟨huses.2, fun heq => ?_⟩⟩
      have hshared := hother hne hj (heq.trans hdata.symm)
      rw [heq] at hshared
      cases hshared
    | fatalMsgDataExclusive =>
      rw [hdata] at huses
      exact ⟨huses.1, hexclusive.trans huses.2⟩
    | fatalMsgDataShared t =>
      rw [hdata] at huses
      exact ⟨huses.1, huses.2.1, hexclusive.trans huses.2.2⟩
  · exact h.distinct j k m' m'' (hmessages.mp hj).2 (hmessages.mp hk).2
  · obtain ⟨ht, hdata⟩ := (havailable t).mp ht
    obtain ⟨j, m', hj, hj'⟩ := h.taken t ht
    exact ⟨j, m', hkept hj (hj' ▸ hdata), hj'⟩
  · obtain ⟨ha, hdata⟩ := (hheap a).mp ha
    obtain ⟨j, m', hj, hj'⟩ := h.allocated a ha
    exact ⟨j, m', hkept hj (hj' ▸ hdata), hj'⟩

/-- What a step does. -/
theorem step_cases {a : Action T ι δ} {s' : Memory T ι δ} (h : step s a = some s') :
    (∃ t i severity exitOnDfatal address data, a = .init t i severity exitOnDfatal address data ∧
      s.messages i = none ∧ address ∉ s.heap ∧ s' = s.init t i severity exitOnDfatal address data) ∨
    (∃ i f m, a = .access i f ∧ s.messages i = some m ∧
      s' = { s with contents := Function.update s.contents m.data (f (s.contents m.data)) }) ∨
    ∃ i m, a = .destroy i ∧ s.messages i = some m ∧
      s' = Memory.release { s with messages := Function.update s.messages i none } m := by
  cases a with
  | init t i severity exitOnDfatal address data =>
    rw [step] at h
    split at h
    · rename_i hfree
      cases h
      exact .inl ⟨_, _, _, _, _, _, rfl, Option.isNone_iff_eq_none.mp hfree.1, hfree.2, rfl⟩
    · cases h
  | access i f =>
    obtain ⟨m, hm, rfl⟩ := Option.map_eq_some_iff.mp h
    exact .inr (.inl ⟨i, f, m, rfl, hm, rfl⟩)
  | destroy i =>
    obtain ⟨m, hm, rfl⟩ := Option.map_eq_some_iff.mp h
    exact .inr (.inr ⟨i, m, rfl, hm, rfl⟩)

theorem step_invariant {a : Action T ι δ} {s' : Memory T ι δ} (h : Invariant s)
    (hstep : step s a = some s') :
    Invariant s' := by
  obtain ⟨t, i, severity, exitOnDfatal, address, data, -, hnew, haddress, rfl⟩ |
    ⟨i, f, m, -, -, rfl⟩ |
    ⟨i, m, -, hm, rfl⟩ := step_cases hstep
  · obtain ⟨s₁, m, hplaces, heq⟩ := init_cases s t i severity exitOnDfatal address data
    rw [heq]
    exact invariant_place h hplaces hnew haddress data
  · exact ⟨h.uses, h.distinct, h.taken, h.allocated, h.nodup⟩
  · exact invariant_destroy h hm

/-- A message in the expression of another one. -/
def nestedActions : List (Action Bool ℕ (List ℕ)) :=
  [.init true 0 .info true 8 [1], .init true 1 .error true 9 [2], .access 0 (· ++ [3]),
    .access 1 (· ++ [4]),
    .destroy 1, .access 0 (· ++ [5])]

/-- The data of each message. -/
def view (s : Memory T ι δ) (i : ι) : Option δ := (s.messages i).map fun m => s.contents m.data

/-- A step where each message has memory of its own. -/
def ownStep (own : ι → Option δ) : Action T ι δ → ι → Option δ
  | .init _ i _ _ _ data => Function.update own i (some data)
  | .access i f => Function.update own i ((own i).map f)
  | .destroy i => Function.update own i none

/-- A fatal message that is not the first is made while another one of the thread lives. -/
def Reuses (s : Memory T ι δ) : Action T ι δ → Prop
  | .init t _ severity exitOnDfatal _ _ =>
    severity = .fatal ∧ exitOnDfatal ∧ s.fatalMsgExclusive = false ∧
    ∃ j m, s.messages j = some m ∧ m.data = .fatalMsgDataShared t
  | _ => False

/-- No messages share memory. -/
def Isolated (s : Memory T ι δ) : Prop :=
  ∀ i j m m', s.messages i = some m → s.messages j = some m' → m.data = m'.data → i = j

/-- A new message shares memory only if it reuses it. -/
theorem init_fresh {severity : Severity} {exitOnDfatal : Bool} {data : δ} (h : Invariant s)
    (haddress : address ∉ s.heap)
    (hreuses : ¬Reuses s (.init t i severity exitOnDfatal address data)) :
    ∃ (s₁ : Memory T ι δ) (m : LogMessage T),
      s.init t i severity exitOnDfatal address data = s₁.place i m data ∧ s₁.messages = s.messages ∧
      s₁.contents = s.contents ∧ ∀ j m', s.messages j = some m' → m'.data ≠ m.data := by
  have hfresh : ∀ {s₁ m}, Places s t address s₁ m → (∀ t', m.data ≠ .fatalMsgDataShared t') →
      ∀ j m', s.messages j = some m' → m'.data ≠ m.data := fun hplaces hshared j m' hj hdata =>
    hshared _ (hplaces.fresh h haddress hj hdata)
  rw [Memory.init]
  split
  · cases havailable : s.threadDataAvailable t with
    | true => exact ⟨_, _, rfl, rfl, rfl, hfresh (.thread havailable) (by simp)⟩
    | false => exact ⟨_, _, rfl, rfl, rfl, hfresh (.heap havailable) (by simp)⟩
  · rename_i hfatal
    cases hexclusive : s.fatalMsgExclusive with
    | true => exact ⟨_, _, rfl, rfl, rfl, hfresh (.exclusive hexclusive) (by simp)⟩
    | false =>
      refine ⟨_, _, rfl, rfl, rfl, fun j m' hj hdata =>
        hreuses ⟨?_, ?_, hexclusive, j, m', hj, hdata⟩⟩
      · by_contra hne
        exact hfatal (.inl hne)
      · by_contra hne
        exact hfatal (.inr (by simpa using hne))

theorem isolated_step {a : Action T ι δ} {s' : Memory T ι δ} (h : Invariant s)
    (hisolated : Isolated s) (hreuses : ¬Reuses s a) (hstep : step s a = some s') :
    Isolated s' ∧ view s' = ownStep (view s) a := by
  obtain ⟨t, i, severity, exitOnDfatal, address, data, rfl, hnew, haddress, rfl⟩ |
    ⟨i, f, m, rfl, hm, rfl⟩ |
    ⟨i, m, rfl, hm, rfl⟩ := step_cases hstep
  · obtain ⟨s₁, m, heq, hmessages, hcontents, hfresh⟩ := init_fresh h haddress hreuses
    rw [heq]
    refine ⟨fun j k m' m'' hj hk hdata => ?_, funext fun j => ?_⟩
    · rw [messages_place, update_eq_some, hmessages] at hj hk
      rcases hj with ⟨rfl, hj⟩ | ⟨-, hj⟩
      · rcases hk with ⟨rfl, -⟩ | ⟨-, hk⟩
        · rfl
        · cases hj
          exact absurd hdata.symm (hfresh k m'' hk)
      · rcases hk with ⟨rfl, hk⟩ | ⟨-, hk⟩
        · cases hk
          exact absurd hdata (hfresh j m' hj)
        · exact hisolated j k m' m'' hj hk hdata
    · rw [view, ownStep, messages_place, contents_place, hmessages, hcontents]
      by_cases hj : j = i
      · rw [hj, Function.update_self, Function.update_self, Option.map_some, Function.update_self]
      · rw [Function.update_of_ne hj, Function.update_of_ne hj, view]
        refine Option.map_congr fun m' hm' => ?_
        exact Function.update_of_ne (hfresh j m' hm') ..
  · refine ⟨hisolated, funext fun j => ?_⟩
    rw [view, ownStep]
    dsimp only
    by_cases hj : j = i
    · rw [hj, Function.update_self, view, hm, Option.map_some, Option.map_some, Option.map_some,
        Function.update_self]
    · rw [Function.update_of_ne hj, view]
      refine Option.map_congr fun m' hm' => ?_
      exact Function.update_of_ne (fun hdata => hj (hisolated j i m' m hm' hm hdata)) ..
  · refine ⟨fun j k m' m'' hj hk hdata => ?_, funext fun j => ?_⟩
    · rw [messages_release, update_eq_some, or_iff_right (by simp)] at hj hk
      exact hisolated j k m' m'' hj.2 hk.2 hdata
    · rw [view, ownStep, messages_release, contents_release]
      dsimp only
      by_cases hj : j = i
      · rw [hj, Function.update_self, Function.update_self, Option.map_none]
      · rw [Function.update_of_ne hj, Function.update_of_ne hj, view]

theorem view_run {actions : List (Action T ι δ)} {s' : Memory T ι δ} (h : Invariant s)
    (hisolated : Isolated s) (hreuses : Along step (fun s a => ¬Reuses s a) s actions)
    (hrun : run step s actions = some s') :
    view s' = actions.foldl ownStep (view s) := by
  induction actions generalizing s with
  | nil =>
    cases hrun
    rfl
  | cons a actions ih =>
    obtain ⟨s₁, hstep, hrun⟩ := run_cons_eq_some.mp hrun
    obtain ⟨hfirst, hrest⟩ := along_cons.mp hreuses
    obtain ⟨hisolated₁, hview⟩ := isolated_step h hisolated hfirst hstep
    rw [List.foldl_cons, ← hview]
    exact ih (step_invariant h hstep) hisolated₁ (hrest s₁ hstep) hrun

/-- However the threads compose messages, one in the expression of another, interleaved, and to any
depth: each message has the data that it has been given, as if it were the only one, unless a thread
makes a fatal message that is not the first while it has another such message. -/
theorem messages_isolated {contents : Storage T → δ} {actions : List (Action T ι δ)}
    (hreuses : Along step (fun s a => ¬Reuses s a) (initialMemory contents) actions)
    (h : run step (initialMemory contents) actions = some s) :
    view s = actions.foldl ownStep fun _ => none :=
  view_run (invariant_initial contents)
    (fun _ _ m _ h => absurd h.symm (Option.some_ne_none m)) hreuses h

theorem messages_isolated_nested : ∃ s : Memory Bool ℕ (List ℕ),
    run step (initialMemory fun _ => []) nestedActions = some s ∧ view s 0 = some [1, 3, 5] := by
  obtain ⟨s, hs⟩ : ∃ s : Memory Bool ℕ (List ℕ),
      run step (initialMemory fun _ => []) nestedActions = some s := ⟨_, rfl⟩
  refine ⟨s, hs,
    (congrFun (messages_isolated (fun pre a post hactions s' _ hreuses => ?_) hs) 0).trans rfl⟩
  have hmem : a ∈ nestedActions := by
    rw [hactions]
    exact List.mem_append_right pre List.mem_cons_self
  simp only [nestedActions, List.mem_cons, List.not_mem_nil, or_false] at hmem
  rcases hmem with rfl | rfl | rfl | rfl | rfl | rfl
  · exact absurd hreuses.1 (by decide)
  · exact absurd hreuses.1 (by decide)
  · exact hreuses
  · exact hreuses
  · exact hreuses
  · exact hreuses

/-! ### The first fatal message -/

/-- The first fatal message has been destroyed, and these are its data. -/
structure Kept (data : δ) (s : Memory T ι δ) : Prop where
  used : s.fatalMsgExclusive = false
  free : ∀ i m, s.messages i = some m → m.data ≠ .fatalMsgDataExclusive
  contents : s.contents .fatalMsgDataExclusive = data

theorem kept_place {data data' : δ} (hplaces : Places s t address s₁ m) (h : Kept data s) :
    Kept data (s₁.place i m data') := by
  have hother : m.data ≠ .fatalMsgDataExclusive := by
    cases hplaces with
    | exclusive hexclusive => exact absurd (h.used.symm.trans hexclusive) Bool.false_ne_true
    | _ => simp
  refine ⟨?_, fun j m' hj => ?_, ?_⟩
  · cases hplaces with
    | exclusive _ => rfl
    | _ => exact h.used
  · rw [messages_place, update_eq_some, hplaces.messages] at hj
    rcases hj with ⟨-, hj⟩ | ⟨-, hj⟩
    · cases hj
      exact hother
    · exact h.free j m' hj
  · rw [contents_place, Function.update_of_ne hother.symm]
    cases hplaces <;> exact h.contents

theorem kept_step {data : δ} {a : Action T ι δ} {s' : Memory T ι δ} (h : Kept data s)
    (hstep : step s a = some s') : Kept data s' := by
  obtain ⟨t, i, severity, exitOnDfatal, address, data', -, -, -, rfl⟩ | ⟨i, f, m, -, hm, rfl⟩ |
    ⟨i, m, -, hm, rfl⟩ := step_cases hstep
  · obtain ⟨s₁, m, hplaces, heq⟩ := init_cases s t i severity exitOnDfatal address data'
    rw [heq]
    exact kept_place hplaces h
  · refine ⟨h.used, h.free, ?_⟩
    dsimp only
    rw [Function.update_of_ne (h.free i m hm).symm, h.contents]
  · refine ⟨?_, fun j m' hj => ?_, ?_⟩
    · rw [fatalMsgExclusive_release]
      exact h.used
    · rw [messages_release, update_eq_some, or_iff_right (by simp)] at hj
      exact h.free j m' hj.2
    · rw [contents_release]
      exact h.contents

/-- When the first fatal message has been destroyed, its data stay as they are, whatever is
logged. -/
theorem first_fatal_kept {actions : List (Action T ι δ)} {s' : Memory T ι δ}
    (hused : s.fatalMsgExclusive = false)
    (hfree : ∀ i m, s.messages i = some m → m.data ≠ .fatalMsgDataExclusive)
    (h : run step s actions = some s') :
    s'.contents .fatalMsgDataExclusive = s.contents .fatalMsgDataExclusive :=
  (run_invariant_all (fun _ _ _ => kept_step) (Kept.mk hused hfree rfl) h).contents

/-- Two fatal messages after each other, after the first one has been destroyed. -/
theorem first_fatal_kept_twice : ∃ s s' : Memory Bool ℕ (List ℕ),
    run step (initialMemory fun _ => []) [.init false 2 .fatal true 9 [5], .destroy 2] = some s ∧
      run step s [.init true 3 .fatal true 9 [6], .access 3 (· ++ [7])] = some s' ∧
      s'.contents .fatalMsgDataExclusive = [5] := by
  obtain ⟨s, hs⟩ : ∃ s : Memory Bool ℕ (List ℕ),
      run step (initialMemory fun _ => []) [.init false 2 .fatal true 9 [5], .destroy 2] =
        some s := ⟨_, rfl⟩
  obtain ⟨s', hs'⟩ : ∃ s',
      run step s [.init true 3 .fatal true 9 [6], .access 3 (· ++ [7])] = some s' := by
    cases hs
    exact ⟨_, rfl⟩
  refine ⟨s, s', hs, hs', (first_fatal_kept ?_ (fun i m hi => ?_) hs').trans ?_⟩
  · cases hs
    rfl
  · have hnone : s.messages = fun _ => none := by
      cases hs
      funext j
      by_cases hj : j = 2
      · rw [hj]
        rfl
      · exact (Function.update_of_ne hj ..).trans (Function.update_of_ne hj ..)
    rw [hnone] at hi
    cases hi
  · cases hs
    rfl

end Steps

end MessageMemory

end NgLog
