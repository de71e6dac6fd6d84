import Mathlib.Data.List.Nodup
import Mathlib.Data.Nat.Notation
import Mathlib.Logic.Function.Basic
import Mathlib.Tactic.Common

/-!
# Intrusive singly linked lists

The nodes of an intrusive list carry the pointer to the next node themselves. A pointer to a link
names the place that holds a pointer to a node: the head of the list or the `next` of a node. To
remove nodes while it traverses the list, a loop keeps such a pointer, and either makes the link
skip the node or goes on with the link of the node.

## Main definitions

* `Links`, `Link` — the pointers of a list, and one of the places that hold them
* `Segment`, `Links.Holds` — the nodes that the pointers lead through
* `Links.push` — a node in front of a list
* `nodes`, `search` — all nodes, and the first one that meets a condition
* `removeLoop` — the loop that removes nodes while it traverses the list

## Main results

* `holds_push` — the nodes after `push`
* `nodes_eq`, `search_eq` — the traversals find the nodes, and what `List.find?` finds among them
* `removeLoop_spec` — the loop visits every node once and keeps exactly those it should
-/

namespace NgLog

namespace LinkedList

variable {N X : Type*}

/-- The pointers of an intrusive list. -/
structure Links (N : Type*) where
  head : Option N
  next : N → Option N

/-- A pointer to a link. -/
inductive Link (N : Type*)
  | head
  | next (node : N)

/-- The pointers lead from `p` through the nodes to `q`. -/
def Segment (next : N → Option N) : Option N → List N → Option N → Prop
  | p, [], q => p = q
  | p, n :: ns, q => p = some n ∧ Segment next (next n) ns q

/-- The list that begins at the head consists of the nodes. -/
structure Links.Holds (l : Links N) (ns : List N) : Prop where
  segment : Segment l.next l.head ns none
  nodup : ns.Nodup

/-- The nodes of a list of fewer than `fuel` nodes. -/
def nodes (next : N → Option N) : ℕ → Option N → Option (List N)
  | 0, _ => none
  | _ + 1, none => some []
  | fuel + 1, some n => (nodes next fuel (next n)).map (n :: ·)

/-- The first node of a list of fewer than `fuel` nodes that meets the condition, which may fail. -/
def search (next : N → Option N) (condition : N → Option Bool) : ℕ → Option N → Option (Option N)
  | 0, _ => none
  | _ + 1, none => some none
  | fuel + 1, some n => (condition n).bind fun found =>
    if found then some (some n) else search next condition fuel (next n)

/-- What the link holds. -/
def Links.get (l : Links N) : Link N → Option N
  | .head => l.head
  | .next n => l.next n

section Changes

variable [DecidableEq N]

/-- Assigns the link. -/
def Links.set (l : Links N) (link : Link N) (p : Option N) : Links N :=
  match link with
  | .head => { l with head := p }
  | .next n => { l with next := Function.update l.next n p }

/-- Puts a node in front of the list. -/
def Links.push (l : Links N) (n : N) : Links N := ⟨some n, Function.update l.next n l.head⟩

/-- Visits the nodes of a list of fewer than `fuel` nodes from the link on. `visit` says whether to
remove the node, and may change a state or fail. -/
def removeLoop (visit : N → X → Option (Bool × X)) :
    ℕ → Link N → Links N → X → Option (Links N × X)
  | 0, _, _, _ => none
  | fuel + 1, link, l, x =>
    match l.get link with
    | none => some (l, x)
    | some n => (visit n x).bind fun r =>
      if r.1 then removeLoop visit fuel link (l.set link (l.next n)) r.2
      else removeLoop visit fuel (.next n) l r.2

end Changes

/-! ### Segments -/

variable {next next' : N → Option N} {p q r : Option N} {n : N} {ns ms : List N}

theorem segment_append :
    Segment next p (ns ++ ms) q ↔ ∃ r, Segment next p ns r ∧ Segment next r ms q := by
  induction ns generalizing p with
  | nil => simp [Segment]
  | cons n ns ih => simp [Segment, ih, and_assoc]

theorem segment_concat :
    Segment next p (ns ++ [n]) q ↔ Segment next p ns (some n) ∧ next n = q := by
  simp [segment_append, Segment]

/-- A segment depends only on the pointers of its own nodes. -/
theorem segment_congr (h : ∀ n ∈ ns, next' n = next n) :
    Segment next' p ns q ↔ Segment next p ns q := by
  induction ns generalizing p with
  | nil => exact Iff.rfl
  | cons n ns ih =>
    rw [Segment, Segment, h n (List.mem_cons_self ..),
      ih fun m hm => h m (List.mem_cons_of_mem n hm)]

theorem holds_nil {next : N → Option N} : (⟨none, next⟩ : Links N).Holds [] := ⟨rfl, List.nodup_nil⟩

theorem holds_push [DecidableEq N] {l : Links N} (h : l.Holds ns) (hn : n ∉ ns) :
    (l.push n).Holds (n :: ns) := by
  refine ⟨⟨rfl, ?_⟩, List.nodup_cons.mpr ⟨hn, h.nodup⟩⟩
  have hnext : ∀ m ∈ ns, Function.update l.next n l.head m = l.next m := by
    intro m hm
    have hne : m ≠ n := fun h => hn (h ▸ hm)
    exact Function.update_of_ne hne ..
  change Segment (Function.update l.next n l.head) (Function.update l.next n l.head n) ns none
  rw [Function.update_self]
  exact (segment_congr hnext).mpr h.segment

/-- With enough fuel, all nodes are found. -/
theorem nodes_eq {fuel : ℕ} (h : Segment next p ns none) (hfuel : ns.length < fuel) :
    nodes next fuel p = some ns := by
  induction ns generalizing p fuel with
  | nil =>
    obtain ⟨fuel, rfl⟩ := Nat.exists_eq_succ_of_ne_zero (Nat.ne_zero_of_lt hfuel)
    obtain rfl : p = none := h
    rfl
  | cons n ns ih =>
    obtain ⟨fuel, rfl⟩ := Nat.exists_eq_succ_of_ne_zero (Nat.ne_zero_of_lt hfuel)
    obtain ⟨rfl, h⟩ := h
    rw [nodes, ih h (Nat.lt_of_succ_lt_succ hfuel)]
    rfl

/-- With enough fuel, the search finds what `List.find?` finds. -/
theorem search_eq {condition : N → Option Bool} {found : N → Bool} {fuel : ℕ}
    (h : Segment next p ns none) (hcondition : ∀ n ∈ ns, condition n = some (found n))
    (hfuel : ns.length < fuel) : search next condition fuel p = some (ns.find? found) := by
  induction ns generalizing p fuel with
  | nil =>
    obtain ⟨fuel, rfl⟩ := Nat.exists_eq_succ_of_ne_zero (Nat.ne_zero_of_lt hfuel)
    obtain rfl : p = none := h
    rfl
  | cons n ns ih =>
    obtain ⟨fuel, rfl⟩ := Nat.exists_eq_succ_of_ne_zero (Nat.ne_zero_of_lt hfuel)
    obtain ⟨rfl, h⟩ := h
    rw [search, hcondition n (List.mem_cons_self ..), Option.bind_some]
    cases hn : found n with
    | true => simp [hn]
    | false =>
      rw [List.find?_cons_of_neg (by simp [hn]), if_neg (by simp)]
      exact ih h (fun m hm => hcondition m (List.mem_cons_of_mem n hm))
        (Nat.lt_of_succ_lt_succ hfuel)

/-! ### The link after some nodes -/

/-- The link that the last of the nodes holds, or the head. -/
def linkAfter (ns : List N) : Link N :=
  match ns.getLast? with
  | none => .head
  | some n => .next n

theorem linkAfter_concat : linkAfter (ns ++ [n]) = .next n := by
  rw [linkAfter, List.getLast?_concat]

theorem get_linkAfter {l : Links N} (h : Segment l.next l.head ns p) :
    l.get (linkAfter ns) = p := by
  rcases ns.eq_nil_or_concat with rfl | ⟨init, n, rfl⟩
  · exact h
  · rw [List.concat_eq_append] at h ⊢
    rw [linkAfter_concat]
    exact (segment_concat.mp h).2

/-- After an assignment of that link, the nodes lead to what has been assigned. -/
theorem segment_set [DecidableEq N] {l : Links N} (h : Segment l.next l.head ns p)
    (hnodup : ns.Nodup) (q : Option N) :
    Segment (l.set (linkAfter ns) q).next (l.set (linkAfter ns) q).head ns q := by
  rcases ns.eq_nil_or_concat with rfl | ⟨init, n, rfl⟩
  · exact rfl
  · rw [List.concat_eq_append] at h hnodup ⊢
    have hn : n ∉ init := fun hmem =>
      (List.nodup_append.mp hnodup).2.2 n hmem n (List.mem_singleton_self n) rfl
    rw [linkAfter_concat, segment_concat]
    have hnext : ∀ m ∈ init, Function.update l.next n q m = l.next m := by
      intro m hm
      have hne : m ≠ n := fun h => hn (h ▸ hm)
      exact Function.update_of_ne hne ..
    exact ⟨(segment_congr hnext).mpr (segment_concat.mp h).1, Function.update_self ..⟩

theorem set_linkAfter_next [DecidableEq N] {l : Links N} {ns : List N} {m : N} (hm : m ∉ ns)
    (q : Option N) :
    (l.set (linkAfter ns) q).next m = l.next m := by
  rcases ns.eq_nil_or_concat with rfl | ⟨init, n, rfl⟩
  · rfl
  · rw [List.concat_eq_append] at hm ⊢
    rw [linkAfter_concat]
    have hne : m ≠ n := fun h =>
      hm (h ▸ List.mem_append_right init (List.mem_singleton_self m))
    exact Function.update_of_ne hne ..

/-! ### The loop -/

section Loop

variable [DecidableEq N] {visit : N → X → Option (Bool × X)} {remove : N → Bool}
  {I : X → List N → Prop}

/-- The loop from the link after the nodes that have been kept. `I` is the invariant of the state,
for the nodes that are still to be visited. -/
theorem removeLoop_linkAfter
    (hvisit : ∀ n ns x, I x (n :: ns) → ∃ x', visit n x = some (remove n, x') ∧ I x' ns)
    {fuel : ℕ} {kept ns : List N} {l : Links N} {x : X} (hkept : Segment l.next l.head kept p)
    (hns : Segment l.next p ns none) (hnodup : (kept ++ ns).Nodup) (hx : I x ns)
    (hfuel : ns.length < fuel) :
    ∃ l' x', removeLoop visit fuel (linkAfter kept) l x = some (l', x') ∧
      l'.Holds (kept ++ ns.filter fun n => !remove n) ∧ I x' [] ∧
      ∀ m, m ∉ kept → m ∉ ns → l'.next m = l.next m := by
  induction ns generalizing fuel kept l x p with
  | nil =>
    obtain ⟨fuel, rfl⟩ := Nat.exists_eq_succ_of_ne_zero (Nat.ne_zero_of_lt hfuel)
    obtain rfl : p = none := hns
    refine ⟨l, x, ?_, ⟨?_, ?_⟩, hx, fun _ _ _ => rfl⟩
    · rw [removeLoop, get_linkAfter hkept]
    · rwa [List.filter_nil, List.append_nil]
    · rwa [List.filter_nil]
  | cons n ns ih =>
    obtain ⟨fuel, rfl⟩ := Nat.exists_eq_succ_of_ne_zero (Nat.ne_zero_of_lt hfuel)
    obtain ⟨rfl, hns⟩ := hns
    obtain ⟨x', hn, hx'⟩ := hvisit n ns x hx
    have hlength : ns.length < fuel := Nat.lt_of_succ_lt_succ hfuel
    have hdisjoint := (List.nodup_append.mp hnodup).2.2
    have hnkept : n ∉ kept := fun hmem => hdisjoint n hmem n (List.mem_cons_self ..) rfl
    have hnns : n ∉ ns := (List.nodup_cons.mp (List.nodup_append.mp hnodup).2.1).1
    cases hremove : remove n with
    | true =>
      -- The link of the kept nodes now skips the node.
      have hunlinked := segment_set hkept (List.nodup_append.mp hnodup).1 (l.next n)
      have hrest : Segment (l.set (linkAfter kept) (l.next n)).next (l.next n) ns none := by
        refine (segment_congr fun m hm => set_linkAfter_next ?_ _).mpr hns
        exact fun hmem => hdisjoint m hmem m (List.mem_cons_of_mem n hm) rfl
      have hnodup' : (kept ++ ns).Nodup :=
        hnodup.sublist (List.Sublist.append_left (List.sublist_cons_self n ns) kept)
      obtain ⟨l', x'', hloop, hholds, hinv, hframe⟩ := ih hunlinked hrest hnodup' hx' hlength
      refine ⟨l', x'', ?_, ?_, hinv, fun m hm hm' => ?_⟩
      · rw [removeLoop, get_linkAfter hkept]
        simp [hn, hremove, hloop]
      · rwa [List.filter_cons_of_neg (by simp [hremove])]
      · rw [hframe m hm fun hmem => hm' (List.mem_cons_of_mem n hmem), set_linkAfter_next hm]
    | false =>
      -- The loop goes on with the link of the node.
      have hkept' : Segment l.next l.head (kept ++ [n]) (l.next n) :=
        segment_concat.mpr ⟨hkept, rfl⟩
      have hnodup' : ((kept ++ [n]) ++ ns).Nodup := by
        rwa [List.append_assoc, List.singleton_append]
      obtain ⟨l', x'', hloop, hholds, hinv, hframe⟩ := ih hkept' hns hnodup' hx' hlength
      rw [linkAfter_concat] at hloop
      refine ⟨l', x'', ?_, ?_, hinv, fun m hm hm' => ?_⟩
      · rw [removeLoop, get_linkAfter hkept]
        simp [hn, hremove, hloop]
      · rw [List.filter_cons_of_pos (by simp [hremove])]
        rwa [List.append_assoc, List.singleton_append] at hholds
      · refine hframe m ?_ fun hmem => hm' (List.mem_cons_of_mem n hmem)
        intro hmem
        rcases List.mem_append.mp hmem with hmem | hmem
        · exact hm hmem
        · exact hm' (List.mem_singleton.mp hmem ▸ List.mem_cons_self ..)

/-- With enough fuel, the loop from the head visits every node once, keeps exactly the nodes that
are not to be removed, in their order, and does not touch the pointers of other nodes. -/
theorem removeLoop_spec
    (hvisit : ∀ n ns x, I x (n :: ns) → ∃ x', visit n x = some (remove n, x') ∧ I x' ns)
    {fuel : ℕ} {ns : List N} {l : Links N} {x : X} (hl : l.Holds ns) (hx : I x ns)
    (hfuel : ns.length < fuel) :
    ∃ l' x', removeLoop visit fuel .head l x = some (l', x') ∧
      l'.Holds (ns.filter fun n => !remove n) ∧ I x' [] ∧ ∀ m, m ∉ ns → l'.next m = l.next m := by
  have hhead : Segment l.next l.head [] l.head := rfl
  obtain ⟨l', x', hloop, hholds, hinv, hframe⟩ :=
    removeLoop_linkAfter hvisit hhead hl.segment hl.nodup hx hfuel
  exact ⟨l', x', hloop, hholds, hinv, fun m hm => hframe m List.not_mem_nil hm⟩

end Loop

end LinkedList

end NgLog
