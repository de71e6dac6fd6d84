import Mathlib.Data.List.Basic

/-!
# Reordered lists

Two lists have the same entries, and some of the entries have the same order in both. Folding over
them is the same if all the others commute.

## Main definitions

* `Reordered` — the lists

## Main results

* `Reordered.foldl_eq` — folding over both
* `Reordered.filterMap_eq` — what is taken from both, where it is taken from one entry only
-/

namespace NgLog

namespace Reordering

variable {α β : Type*} {p : α → Bool} {l l' : List α}

/-- Lists with the same entries, of which those that `p` tells have the same order. -/
structure Reordered (p : α → Bool) (l l' : List α) : Prop where
  perm : l.Perm l'
  filter : l.filter p = l'.filter p

theorem foldl_comm {f : β → α → β} {a : α} {front : List α}
    (h : ∀ b ∈ front, ∀ x, f (f x b) a = f (f x a) b) (x : β) :
    f (front.foldl f x) a = front.foldl f (f x a) := by
  induction front generalizing x with
  | nil => rfl
  | cons b front ih =>
    rw [List.foldl_cons, List.foldl_cons, ih (List.forall_mem_of_forall_mem_cons h),
      h b List.mem_cons_self]

/-- The first of the entries in order comes first in the other list, too. -/
theorem notMem_of_filter_eq {a b : α} {front back : List α}
    (h : (a :: l).filter p = (front ++ a :: back).filter p) (hnew : a ∉ front) (ha : p a = true)
    (hb : b ∈ front) : p b = false := by
  by_contra hpb
  rw [Bool.not_eq_false] at hpb
  rw [List.filter_cons_of_pos ha, List.filter_append] at h
  cases hfirst : front.filter p with
  | nil =>
    have hmem : b ∈ front.filter p := List.mem_filter.mpr ⟨hb, hpb⟩
    rw [hfirst] at hmem
    exact List.not_mem_nil hmem
  | cons first others =>
    rw [hfirst, List.cons_append, List.cons.injEq] at h
    refine hnew (List.mem_of_mem_filter (p := p) ?_)
    rw [hfirst, h.1]
    exact List.mem_cons_self

/-- Folding over lists in which all entries commute but those that have the same order. -/
theorem Reordered.foldl_eq {f : β → α → β} (h : Reordered p l l')
    (hcomm : ∀ a ∈ l, ∀ b ∈ l, ¬(p a = true ∧ p b = true) → ∀ x, f (f x a) b = f (f x b) a)
    (x : β) :
    l.foldl f x = l'.foldl f x := by
  induction l generalizing l' x with
  | nil =>
    rw [List.nil_perm.mp h.perm]
  | cons a l ih =>
    have hmem : a ∈ l' := h.perm.subset List.mem_cons_self
    obtain ⟨front, back, rfl, hnew⟩ := List.eq_append_cons_of_mem hmem
    have hperm : l.Perm (front ++ back) := (h.perm.trans List.perm_middle).cons_inv
    -- What stands in front of the entry commutes with it.
    have hfront : ∀ b ∈ front, ∀ x, f (f x b) a = f (f x a) b := by
      intro b hb x
      have hbl : b ∈ a :: l := h.perm.mem_iff.mpr (List.mem_append_left _ hb)
      refine (hcomm a List.mem_cons_self b hbl (fun hboth => ?_) x).symm
      rw [notMem_of_filter_eq h.filter hnew hboth.1 hb] at hboth
      exact absurd hboth.2 Bool.false_ne_true
    have hfilter : l.filter p = (front ++ back).filter p := by
      have hboth := h.filter
      rw [List.filter_append]
      by_cases ha : p a = true
      · have hnone : front.filter p = [] := by
          refine List.filter_eq_nil_iff.mpr fun b hb => ?_
          rw [notMem_of_filter_eq h.filter hnew ha hb]
          exact Bool.false_ne_true
        rw [List.filter_append, hnone, List.nil_append, List.filter_cons_of_pos ha,
          List.filter_cons_of_pos ha, List.cons.injEq] at hboth
        rw [hnone, List.nil_append, hboth.2]
      · rwa [List.filter_append, List.filter_cons_of_neg ha, List.filter_cons_of_neg ha] at hboth
    rw [List.foldl_append, List.foldl_cons, List.foldl_cons, foldl_comm hfront, ← List.foldl_append]
    refine ih ⟨hperm, hfilter⟩ (fun b hb c hc => ?_) (f x a)
    exact hcomm b (List.mem_cons_of_mem a hb) c (List.mem_cons_of_mem a hc)

theorem eq_of_perm_of_length_le_one (h : l.Perm l') (hlength : l.length ≤ 1) : l = l' := by
  match l with
  | [] => exact (List.nil_perm.mp h).symm
  | [a] => exact (List.perm_singleton.mp h.symm).symm

/-- What is taken from at most one of the entries. -/
theorem Reordered.filterMap_eq {γ : Type*} {g : α → Option γ} (h : Reordered p l l')
    (hlength : (l.filterMap g).length ≤ 1) : l.filterMap g = l'.filterMap g :=
  eq_of_perm_of_length_le_one (h.perm.filterMap g) hlength

/-- Where no two entries go together, at most one satisfies what would not let two go together. -/
theorem length_filterMap_le_one {γ : Type*} {R : α → α → Prop} {g : α → Option γ} (h : l.Pairwise R)
    (hconflict : ∀ a b, (g a).isSome → (g b).isSome → ¬R a b) : (l.filterMap g).length ≤ 1 := by
  induction l with
  | nil => exact Nat.zero_le 1
  | cons a l ih =>
    obtain ⟨ha, h⟩ := List.pairwise_cons.mp h
    cases hg : g a with
    | none =>
      rw [List.filterMap_cons_none hg]
      exact ih h
    | some c =>
      have hnone : l.filterMap g = [] := by
        refine List.filterMap_eq_nil_iff.mpr fun b hb => ?_
        by_contra hsome
        exact hconflict a b (by rw [hg]; rfl) (Option.isSome_iff_ne_none.mpr hsome) (ha b hb)
      rw [List.filterMap_cons_some hg, hnone]
      exact Nat.le_refl 1

end Reordering

end NgLog
