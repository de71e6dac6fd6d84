import Mathlib.Data.List.Perm.Subperm
import NgLog.Flags.Registry
import NgLog.Support.LinkedList
import NgLog.Support.Simulation

/-!
# The flags of a process

The copies of the library in a process share a list of the flags that their registries have
registered. The entries form one intrusive list in shared memory. `Register` searches it for the
name, whoever owns the entry, and pushes a new entry in front. `Unregister` and the destructor of a
registry traverse it with a pointer to a link, and unlink and free the entries of their own.

What the list is for: it says who holds which name. `Held` is that, as a list of what is held. The
functions on the shared memory answer as the functions on it do, and never touch memory that has
been freed.

## Main definitions

* `SharedRegistry`, `register`, `removeEntries` — the shared list
* `Action`, `step` — the calls of any number of registries, each under the lock
* `Held`, `Held.step` — who holds which name
* `SharedRegistry.contents` — the entries of the list

## Main results

* `register_spec`, `removeEntries_spec` — the calls in terms of what is held
* `shared_list_correct` — the list after every sequence of calls
-/

namespace NgLog

namespace ProcessFlags

open Flags (ProcessFlagRegistration)
open LinkedList (Links search removeLoop nodes)

/-! ### The shared list -/

/-- The address of an entry while it is allocated. An address that is used again is a new number. -/
abbrev Address : Type := ℕ

/-- `SharedEntry`, without the pointer to the next entry. -/
structure SharedEntry (Owner : Type) where
  owner : Owner
  name : CString
  filename : CString
  type : CString

/-- `ProcessFlagInfo`. -/
structure ProcessFlagInfo where
  name : CString
  filename : CString
  type : CString

/-- `SharedRegistry`, with the memory of its entries: `none` at an address that is not allocated.
-/
structure SharedRegistry (Owner : Type) where
  links : Links Address
  entries : Address → Option (SharedEntry Owner)
  allocated : ℕ

variable {Owner : Type}

instance : DecidableEq CString := fun s t =>
  decidable_of_iff (s.text = t.text) ⟨fun h => by cases s; cases t; cases h; rfl, fun h => h ▸ rfl⟩

namespace SharedRegistry

/-- `CreateSharedRegistry`. -/
def init : SharedRegistry Owner := ⟨⟨none, fun _ => none⟩, fun _ => none, 0⟩

/-- More than the entries in the list, whose addresses are below `allocated`. -/
def fuel (r : SharedRegistry Owner) : ℕ := r.allocated + 1

/-- `CreateEntry`, which may fail to allocate memory. -/
def createEntry (r : SharedRegistry Owner) (entry : SharedEntry Owner) (allocates : Bool) :
    SharedRegistry Owner × Option Address :=
  if allocates then
    ({ r with
      entries := Function.update r.entries r.allocated (some entry)
      allocated := r.allocated + 1 }, some r.allocated)
  else (r, none)

/-- `Register`, with what it stores in `previous`. -/
def register (r : SharedRegistry Owner) (owner : Owner) (name filename type : CString)
    (allocates : Bool) :
    Option (SharedRegistry Owner × ProcessFlagRegistration × Option ProcessFlagInfo) := do
  let found ← search r.links.next (fun n => (r.entries n).map fun entry => entry.name = name) r.fuel
    r.links.head
  match found with
  | some n =>
    let entry ← r.entries n
    return (r, .duplicate, some ⟨entry.name, entry.filename, entry.type⟩)
  | none =>
    match r.createEntry ⟨owner, name, filename, type⟩ allocates with
    | (r, none) => return (r, .unavailable, none)
    | (r, some n) => return ({ r with links := r.links.push n }, .registered, none)

end SharedRegistry

section Removal

variable [DecidableEq Owner]

/-- The condition of `RemoveEntries`. A null name or filename matches every entry. -/
def SharedEntry.matches (entry : SharedEntry Owner) (owner : Owner)
    (name filename : Option CString) : Bool :=
  entry.owner = owner ∧ (name = none ∨ name = some entry.name) ∧
    (filename = none ∨ filename = some entry.filename)

/-- One round of the loop of `RemoveEntries`: whether the entry is removed, and the memory in which
it has been freed if so. -/
def visit (owner : Owner) (name filename : Option CString) (n : Address)
    (entries : Address → Option (SharedEntry Owner)) :
    Option (Bool × (Address → Option (SharedEntry Owner))) :=
  (entries n).map fun entry =>
    if entry.matches owner name filename then (true, Function.update entries n none)
    else (false, entries)

/-- `RemoveEntries`. -/
def SharedRegistry.removeEntries (r : SharedRegistry Owner) (owner : Owner)
    (name filename : Option CString) : Option (SharedRegistry Owner) :=
  (removeLoop (visit owner name filename) r.fuel .head r.links r.entries).map fun result =>
    { r with links := result.1, entries := result.2 }

/-- A call of a registry. -/
inductive Action (Owner : Type)
  | register (owner : Owner) (name filename type : CString) (allocates : Bool)
  | unregister (owner : Owner) (name filename : CString)
  | destroy (owner : Owner)

/-- What a call returns. -/
inductive Reply
  | registration (result : ProcessFlagRegistration) (previous : Option ProcessFlagInfo)
  | done

/-- One call, under the lock. -/
def step (r : SharedRegistry Owner) : Action Owner → Option (SharedRegistry Owner × Reply)
  | .register owner name filename type allocates =>
    (r.register owner name filename type allocates).map fun result =>
      (result.1, .registration result.2.1 result.2.2)
  | .unregister owner name filename =>
    (r.removeEntries owner (some name) (some filename)).map fun r => (r, .done)
  | .destroy owner => (r.removeEntries owner none none).map fun r => (r, .done)

end Removal

/-! ### Who holds which name -/

/-- What is held, the latest first. -/
abbrev Held (Owner : Type) : Type := List (SharedEntry Owner)

namespace Held

/-- A name is held by nobody or by one owner. -/
def register (held : Held Owner) (entry : SharedEntry Owner) (allocates : Bool) :
    Held Owner × ProcessFlagRegistration × Option ProcessFlagInfo :=
  match held.find? fun other => other.name = entry.name with
  | some other => (held, .duplicate, some ⟨other.name, other.filename, other.type⟩)
  | none =>
    if allocates then (entry :: held, .registered, none) else (held, .unavailable, none)

variable [DecidableEq Owner]

/-- What is left when an owner gives up what matches. -/
def remove (held : Held Owner) (owner : Owner) (name filename : Option CString) : Held Owner :=
  held.filter fun entry => !entry.matches owner name filename

/-- What a call does to what is held. -/
def step (held : Held Owner) : Action Owner → Held Owner × Reply
  | .register owner name filename type allocates =>
    let result := held.register ⟨owner, name, filename, type⟩ allocates
    (result.1, .registration result.2.1 result.2.2)
  | .unregister owner name filename => (held.remove owner (some name) (some filename), .done)
  | .destroy owner => (held.remove owner none none, .done)

end Held

/-- The entries in the list from the head on; nothing if the list does not end, or leads to memory
that is not allocated. -/
def SharedRegistry.contents (r : SharedRegistry Owner) : Option (List (SharedEntry Owner)) :=
  (nodes r.links.next r.fuel r.links.head).bind fun ns => ns.mapM r.entries

/-! ### The entries behind the addresses -/

section Entries

variable {N E : Type} {ns : List N} {held : List E} {f : N → Option E} {g : N → Bool} {p : E → Bool}

theorem find?_of_map (h : ns.map f = held.map some) (hg : ∀ n e, f n = some e → g n = p e) :
    (ns.find? g).bind f = held.find? p ∧ ((ns.find? g).isSome = (held.find? p).isSome) := by
  induction ns generalizing held with
  | nil =>
    obtain rfl : held = [] := List.map_eq_nil_iff.mp h.symm
    exact ⟨rfl, rfl⟩
  | cons n ns ih =>
    obtain ⟨e, held, rfl, hn, hns⟩ := List.map_eq_cons_iff.mp h.symm
    have hfe : f n = some e := hn.symm
    rw [List.find?_cons, List.find?_cons, hg n e hfe]
    cases p e with
    | true => exact ⟨hfe, rfl⟩
    | false => exact ih hns.symm

theorem filter_of_map (h : ns.map f = held.map some) (hg : ∀ n e, f n = some e → g n = p e) :
    (ns.filter g).map f = (held.filter p).map some := by
  induction ns generalizing held with
  | nil =>
    obtain rfl : held = [] := List.map_eq_nil_iff.mp h.symm
    rfl
  | cons n ns ih =>
    obtain ⟨e, held, rfl, hn, hns⟩ := List.map_eq_cons_iff.mp h.symm
    have hfe : f n = some e := hn.symm
    rw [List.filter_cons, List.filter_cons, hg n e hfe]
    cases p e with
    | true => exact congrArg₂ List.cons hfe (ih hns.symm)
    | false => exact ih hns.symm

theorem mapM_of_map (h : ns.map f = held.map some) : ns.mapM f = some held := by
  induction ns generalizing held with
  | nil =>
    obtain rfl : held = [] := List.map_eq_nil_iff.mp h.symm
    rfl
  | cons n ns ih =>
    obtain ⟨e, held, rfl, hn, hns⟩ := List.map_eq_cons_iff.mp h.symm
    rw [List.mapM_cons, ← hn, ih hns.symm]
    rfl

theorem exists_of_map {n : N} (h : ns.map f = held.map some) (hn : n ∈ ns) : ∃ e, f n = some e := by
  have hmem : f n ∈ held.map some := h ▸ List.mem_map_of_mem hn
  obtain ⟨e, -, he⟩ := List.mem_map.mp hmem
  exact ⟨e, he.symm⟩

end Entries

/-! ### The invariant -/

/-- The list consists of the addresses, where the memory holds the entries. -/
structure SharedRegistry.Lists (r : SharedRegistry Owner) (ns : List Address)
    (held : Held Owner) : Prop where
  holds : r.links.Holds ns
  entries : ns.map r.entries = held.map some
  allocated : ∀ n ∈ ns, n < r.allocated

variable {r : SharedRegistry Owner} {ns : List Address} {held : Held Owner}

theorem lists_init : (SharedRegistry.init : SharedRegistry Owner).Lists [] [] :=
  ⟨LinkedList.holds_nil, rfl, by simp⟩

theorem SharedRegistry.Lists.length_lt (h : r.Lists ns held) : ns.length < r.fuel := by
  have hsubset : ns ⊆ List.range r.allocated := fun n hn => List.mem_range.mpr (h.allocated n hn)
  have hle := (h.holds.nodup.subperm hsubset).length_le
  rw [List.length_range] at hle
  exact Nat.lt_succ_of_le hle

theorem SharedRegistry.Lists.contents (h : r.Lists ns held) : r.contents = some held := by
  rw [SharedRegistry.contents, LinkedList.nodes_eq h.holds.segment h.length_lt, Option.bind_some,
    mapM_of_map h.entries]

/-- What the search of `Register` finds. -/
theorem SharedRegistry.Lists.search (h : r.Lists ns held) (name : CString) :
    ∃ found, LinkedList.search r.links.next
        (fun n => (r.entries n).map fun entry => decide (entry.name = name)) r.fuel r.links.head =
          some found ∧
      found.bind r.entries = held.find? (fun entry => entry.name = name) ∧
      found.isSome = (held.find? fun entry => entry.name = name).isSome := by
  let found (n : Address) : Bool := (r.entries n).any fun entry => entry.name = name
  have hfound : ∀ n e, r.entries n = some e → found n = decide (e.name = name) := by
    intro n e he
    simp [found, he]
  refine ⟨ns.find? found, LinkedList.search_eq h.holds.segment (fun n hn => ?_) h.length_lt,
    find?_of_map h.entries hfound⟩
  obtain ⟨e, he⟩ := exists_of_map h.entries hn
  rw [he, hfound n e he]
  rfl

/-- `Register` answers as it should. -/
theorem register_spec (h : r.Lists ns held) (owner : Owner) (name filename type : CString)
    (allocates : Bool) :
    ∃ r' ns', r.register owner name filename type allocates =
        some (r', (held.register ⟨owner, name, filename, type⟩ allocates).2) ∧
      r'.Lists ns' (held.register ⟨owner, name, filename, type⟩ allocates).1 ∧
      ((held.register ⟨owner, name, filename, type⟩ allocates).2.1 = .duplicate → r' = r) := by
  obtain ⟨found, hsearch, hbind, hsome⟩ := h.search name
  rw [SharedRegistry.register, hsearch, Option.bind_eq_bind, Option.bind_some, Held.register]
  cases hheld : held.find? fun entry => entry.name = name with
  | some e =>
    rw [hheld] at hbind
    obtain ⟨n, rfl, hn⟩ := Option.bind_eq_some_iff.mp hbind
    refine ⟨r, ns, ?_, h, fun _ => rfl⟩
    simp [hn]
  | none =>
    rw [hheld, Option.isSome_none] at hsome
    obtain rfl : found = none := by simpa using hsome
    cases allocates with
    | false =>
      refine ⟨r, ns, rfl, h, fun hduplicate => ?_⟩
      cases hduplicate
    | true =>
      have hfresh : r.allocated ∉ ns := fun hmem => Nat.lt_irrefl _ (h.allocated _ hmem)
      have hframe : ns.map
          (Function.update r.entries r.allocated (some ⟨owner, name, filename, type⟩)) =
            ns.map r.entries := by
        refine List.map_congr_left fun n hn => ?_
        have hne : n ≠ r.allocated := fun heq => hfresh (heq ▸ hn)
        exact Function.update_of_ne hne ..
      refine ⟨_, r.allocated :: ns, rfl, ⟨LinkedList.holds_push h.holds hfresh, ?_, ?_⟩,
        fun hduplicate => ?_⟩
      · change Function.update r.entries r.allocated _ r.allocated :: ns.map _ = _
        rw [Function.update_self, hframe, h.entries]
        rfl
      · refine List.forall_mem_cons.mpr ⟨Nat.lt_succ_self _, fun n hn => ?_⟩
        exact Nat.lt_succ_of_lt (h.allocated n hn)
      · cases hduplicate

theorem register_duplicate_iff (held : Held Owner) (entry : SharedEntry Owner) (allocates : Bool) :
    (held.register entry allocates).2.1 = .duplicate ↔ ∃ other ∈ held, other.name = entry.name := by
  rw [Held.register]
  cases hheld : held.find? fun other => other.name = entry.name with
  | some other =>
    have hname : other.name = entry.name := by simpa using List.find?_some hheld
    exact iff_of_true rfl ⟨other, List.mem_of_find?_eq_some hheld, hname⟩
  | none =>
    have hnone : ¬∃ other ∈ held, other.name = entry.name := by
      rintro ⟨other, hmem, hname⟩
      exact List.find?_eq_none.mp hheld other hmem (decide_eq_true hname)
    cases allocates <;> simpa using hnone

theorem register_of_ne_duplicate {held : Held Owner} {entry : SharedEntry Owner} {allocates : Bool}
    (h : (held.register entry allocates).2.1 ≠ .duplicate) :
    (held.register entry allocates).1 = if allocates then entry :: held else held := by
  rw [Held.register] at h ⊢
  cases hheld : held.find? fun other => other.name = entry.name with
  | some other =>
    rw [hheld] at h
    exact absurd rfl h
  | none => cases allocates <;> rfl

section Runs

variable [DecidableEq Owner]

/-- `RemoveEntries` removes what it should. The invariant of the loop: the entries that are still to
be visited are in the memory, and so are those that stay. -/
theorem removeEntries_spec (h : r.Lists ns held) (owner : Owner) (name filename : Option CString) :
    ∃ r' ns', r.removeEntries owner name filename = some r' ∧
      r'.Lists ns' (held.remove owner name filename) := by
  let remove (n : Address) : Bool := (r.entries n).any fun entry =>
    entry.matches owner name filename
  have hremove : ∀ n e, r.entries n = some e → (!remove n) = !e.matches owner name filename := by
    intro n e he
    simp [remove, he]
  let I (entries : Address → Option (SharedEntry Owner)) (rest : List Address) : Prop :=
    rest.Nodup ∧ (∀ n ∈ rest, n ∈ ns ∧ entries n = r.entries n) ∧
      ∀ n ∈ ns, remove n = false → entries n = r.entries n
  have hvisit : ∀ n rest entries, I entries (n :: rest) →
      ∃ entries', visit owner name filename n entries = some (remove n, entries') ∧
        I entries' rest := by
    rintro n rest entries ⟨hnodup, hrest, hkept⟩
    obtain ⟨hn, hsame⟩ := hrest n (List.mem_cons_self ..)
    obtain ⟨e, he⟩ := exists_of_map h.entries hn
    have hmatches : remove n = e.matches owner name filename := by simp [remove, he]
    rw [visit, hsame, he, Option.map_some, hmatches]
    have hnrest := (List.nodup_cons.mp hnodup).1
    cases hm : e.matches owner name filename with
    | true =>
      refine ⟨Function.update entries n none, rfl, (List.nodup_cons.mp hnodup).2, ?_, ?_⟩
      · intro m hmem
        have hne : m ≠ n := fun heq => hnrest (heq ▸ hmem)
        rw [Function.update_of_ne hne]
        exact hrest m (List.mem_cons_of_mem n hmem)
      · intro m hmem hstays
        have hne : m ≠ n := by
          rintro rfl
          rw [hmatches, hm] at hstays
          cases hstays
        rw [Function.update_of_ne hne]
        exact hkept m hmem hstays
    | false =>
      exact ⟨entries, rfl, (List.nodup_cons.mp hnodup).2,
        fun m hmem => hrest m (List.mem_cons_of_mem n hmem), hkept⟩
  obtain ⟨links, entries, hloop, hholds, ⟨-, -, hkept⟩, -⟩ :=
    LinkedList.removeLoop_spec hvisit h.holds
      ⟨h.holds.nodup, fun n hn => ⟨hn, rfl⟩, fun _ _ _ => rfl⟩ h.length_lt
  refine ⟨⟨links, entries, r.allocated⟩, _, Option.map_eq_some_iff.mpr ⟨_, hloop, rfl⟩, hholds, ?_,
    fun n hn => h.allocated n (List.mem_filter.mp hn).1⟩
  have hframe : (ns.filter fun n => !remove n).map entries =
      (ns.filter fun n => !remove n).map r.entries := by
    refine List.map_congr_left fun n hn => ?_
    obtain ⟨hmem, hstays⟩ := List.mem_filter.mp hn
    exact hkept n hmem (by simpa using hstays)
  exact hframe.trans (filter_of_map h.entries hremove)

/-! ### Every sequence of calls -/

/-- No name is held twice. -/
def Held.Distinct (held : Held Owner) : Prop := (held.map SharedEntry.name).Nodup

theorem distinct_step (h : held.Distinct) (a : Action Owner) : (held.step a).1.Distinct := by
  have hremove (owner : Owner) (name filename : Option CString) :
      (held.remove owner name filename).Distinct :=
    List.Nodup.sublist (List.Sublist.map _ List.filter_sublist) h
  cases a with
  | register owner name filename type allocates =>
    change (held.register _ allocates).1.Distinct
    rw [Held.register]
    cases hheld : held.find? fun entry => entry.name = name with
    | some e => exact h
    | none =>
      cases allocates with
      | false => exact h
      | true =>
        refine List.nodup_cons.mpr ⟨fun hmem => ?_, h⟩
        obtain ⟨e, he, hname⟩ := List.mem_map.mp hmem
        exact List.find?_eq_none.mp hheld e he (decide_eq_true hname)
  | unregister owner name filename => exact hremove owner (some name) (some filename)
  | destroy owner => exact hremove owner none none

/-- The shared list simulates what is held. -/
theorem simulates_held :
    Simulation.Simulates step Held.step
      fun (r : SharedRegistry Owner) held => held.Distinct ∧ ∃ ns, r.Lists ns held := by
  rintro r held a ⟨hdistinct, ns, h⟩
  have hdistinct' := distinct_step hdistinct a
  cases a with
  | register owner name filename type allocates =>
    obtain ⟨r', ns', hr', h', -⟩ := register_spec h owner name filename type allocates
    exact ⟨r', Option.map_eq_some_iff.mpr ⟨_, hr', rfl⟩, hdistinct', ns', h'⟩
  | unregister owner name filename =>
    obtain ⟨r', ns', hr', h'⟩ := removeEntries_spec h owner (some name) (some filename)
    exact ⟨r', Option.map_eq_some_iff.mpr ⟨_, hr', rfl⟩, hdistinct', ns', h'⟩
  | destroy owner =>
    obtain ⟨r', ns', hr', h'⟩ := removeEntries_spec h owner none none
    exact ⟨r', Option.map_eq_some_iff.mpr ⟨_, hr', rfl⟩, hdistinct', ns', h'⟩

theorem remove_some (held : Held Owner) (owner : Owner) (name filename : CString) :
    held.remove owner (some name) (some filename) =
      held.filter fun entry =>
        ¬(entry.owner = owner ∧ entry.name = name ∧ entry.filename = filename) := by
  refine List.filter_congr fun entry _ => ?_
  simp [SharedEntry.matches, eq_comm]

theorem remove_none (held : Held Owner) (owner : Owner) :
    held.remove owner none none = held.filter fun entry => entry.owner ≠ owner := by
  refine List.filter_congr fun entry _ => ?_
  simp [SharedEntry.matches]

/-- After any calls of any owners, the list holds what they hold, each name once, and every call has
been answered so. From there, `Register` reports a duplicate if and only if the name is held, and
then changes nothing; `Unregister` removes exactly the entries of the caller with the name and the
filename, and the destructor exactly those of the caller. -/
theorem shared_list_correct (actions : List (Action Owner)) :
    ∃ (r : SharedRegistry Owner) (held : Held Owner),
      Simulation.trace step SharedRegistry.init actions =
        some (r, (Simulation.execute Held.step [] actions).2) ∧
      held = (Simulation.execute Held.step [] actions).1 ∧
      r.contents = some held ∧ (held.map SharedEntry.name).Nodup ∧
      (∀ owner name filename type allocates, ∃ r' result previous,
        r.register owner name filename type allocates = some (r', result, previous) ∧
        (result = .duplicate ↔ ∃ entry ∈ held, entry.name = name) ∧
        (result = .duplicate → r' = r) ∧
        (result ≠ .duplicate → r'.contents =
          some (if allocates then ⟨owner, name, filename, type⟩ :: held else held))) ∧
      (∀ owner name filename, ∃ r', r.removeEntries owner (some name) (some filename) = some r' ∧
        r'.contents = some (held.filter fun entry =>
          ¬(entry.owner = owner ∧ entry.name = name ∧ entry.filename = filename))) ∧
      ∀ owner, ∃ r', r.removeEntries owner none none = some r' ∧
        r'.contents = some (held.filter fun entry => entry.owner ≠ owner) := by
  obtain ⟨r, htrace, hdistinct, ns, h⟩ := simulates_held.trace_eq actions
    (show (Held.Distinct [] ∧ ∃ ns, (SharedRegistry.init : SharedRegistry Owner).Lists ns []) from
      ⟨List.nodup_nil, [], lists_init⟩)
  refine ⟨r, _, htrace, rfl, h.contents, hdistinct, ?_, ?_, ?_⟩
  · intro owner name filename type allocates
    obtain ⟨r', ns', hr', h', hsame⟩ := register_spec h owner name filename type allocates
    refine ⟨r', _, _, hr', register_duplicate_iff .., hsame, fun hresult => ?_⟩
    rw [h'.contents, register_of_ne_duplicate hresult]
  · intro owner name filename
    obtain ⟨r', ns', hr', h'⟩ := removeEntries_spec h owner (some name) (some filename)
    exact ⟨r', hr', by rw [h'.contents, remove_some]⟩
  · intro owner
    obtain ⟨r', ns', hr', h'⟩ := removeEntries_spec h owner none none
    exact ⟨r', hr', by rw [h'.contents, remove_none]⟩

end Runs

end ProcessFlags

end NgLog
