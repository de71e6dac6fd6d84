import Mathlib.Order.Lattice.Nat
import Mathlib.Order.Bounds.Basic
import Mathlib.Tactic.Common

/-!
# Edit distance

An edit of a list inserts, deletes or substitutes one element. `editDistance` computes, by recursion
on the two lists, the least number of edits that turn one into the other; that it is the least is
`isLeast_editDistance`.

The upper bound is a chain of edits read off the recursion. The lower bound rests on one fact, that
a single edit of the target moves the distance by at most one: by induction on the part of the
target before the edit, where it is a statement about every source.

## Main definitions

* `Edit`, `Edits` — one edit, and a chain of `n` of them
* `editDistance` — the distance by recursion

## Main results

* `isLeast_editDistance` — it is the least number of edits
* `editDistance_reverse` — so the lists may be read from either end
* `exists_first_least` — the first element of a list at which a function is least
-/

namespace NgLog

section

variable {α : Type*} {a b c : List α} {m n : ℕ}

/-- One element is inserted, deleted or substituted. -/
inductive Edit : List α → List α → Prop
  | insert (u v : List α) (y : α) : Edit (u ++ v) (u ++ y :: v)
  | delete (u v : List α) (x : α) : Edit (u ++ x :: v) (u ++ v)
  | substitute (u v : List α) (x y : α) : Edit (u ++ x :: v) (u ++ y :: v)

/-- A chain of `n` edits. -/
inductive Edits : ℕ → List α → List α → Prop
  | refl (a : List α) : Edits 0 a a
  | tail {n : ℕ} {a b c : List α} : Edits n a b → Edit b c → Edits (n + 1) a c

theorem Edit.reverse (h : Edit a b) : Edit a.reverse b.reverse := by
  cases h with
  | insert u v y => simpa using Edit.insert v.reverse u.reverse y
  | delete u v x => simpa using Edit.delete v.reverse u.reverse x
  | substitute u v x y => simpa using Edit.substitute v.reverse u.reverse x y

theorem Edit.cons (h : Edit a b) (x : α) : Edit (x :: a) (x :: b) := by
  cases h with
  | insert u v y => exact Edit.insert (x :: u) v y
  | delete u v y => exact Edit.delete (x :: u) v y
  | substitute u v y z => exact Edit.substitute (x :: u) v y z

namespace Edits

theorem reverse (h : Edits n a b) : Edits n a.reverse b.reverse := by
  induction h with
  | refl a => exact .refl _
  | tail _ hedit ih => exact .tail ih hedit.reverse

theorem cons (h : Edits n a b) (x : α) : Edits n (x :: a) (x :: b) := by
  induction h with
  | refl a => exact .refl _
  | tail _ hedit ih => exact .tail ih (hedit.cons x)

theorem head (hedit : Edit a b) (h : Edits n b c) : Edits (n + 1) a c := by
  induction h with
  | refl b => exact .tail (.refl a) hedit
  | tail _ hlast ih => exact .tail (ih hedit) hlast

/-- A list is emptied one element at a time. -/
theorem toNil (a : List α) : Edits a.length a [] := by
  induction a with
  | nil => exact .refl []
  | cons x a ih => exact head (Edit.delete [] a x) ih

/-- A list is built one element at a time. -/
theorem ofNil (b : List α) : Edits b.length [] b := by
  induction b with
  | nil => exact .refl []
  | cons y b ih => exact head (Edit.insert [] [] y) (ih.cons y)

end Edits

end

section

variable {α : Type*} [DecidableEq α] {a b c : List α} {n : ℕ}

/-- The least number of edits that turn one list into the other. -/
def editDistance : List α → List α → ℕ
  | [], b => b.length
  | x :: a, [] => (x :: a).length
  | x :: a, y :: b =>
    min (min (editDistance a (y :: b) + 1) (editDistance (x :: a) b + 1))
      (editDistance a b + if x = y then 0 else 1)

@[simp] theorem editDistance_nil_left (b : List α) : editDistance [] b = b.length := by
  simp [editDistance]

@[simp] theorem editDistance_nil_right (a : List α) : editDistance a [] = a.length := by
  cases a <;> simp [editDistance]

theorem editDistance_cons_cons (x y : α) (a b : List α) :
    editDistance (x :: a) (y :: b) =
      min (min (editDistance a (y :: b) + 1) (editDistance (x :: a) b + 1))
        (editDistance a b + if x = y then 0 else 1) := by
  rw [editDistance]

/-- The distance is the length of a chain of edits. -/
theorem edits_editDistance (a b : List α) : Edits (editDistance a b) a b := by
  induction a generalizing b with
  | nil => simpa using Edits.ofNil b
  | cons x a iha =>
    induction b with
    | nil => simpa using Edits.toNil (x :: a)
    | cons y b ihb =>
      rw [editDistance_cons_cons]
      rcases min_choice (min (editDistance a (y :: b) + 1) (editDistance (x :: a) b + 1))
        (editDistance a b + if x = y then 0 else 1) with h | h
      · rw [h]
        rcases min_choice (editDistance a (y :: b) + 1) (editDistance (x :: a) b + 1) with h | h
        · rw [h]
          exact Edits.head (Edit.delete [] a x) (iha (y :: b))
        · rw [h]
          exact Edits.tail ihb (Edit.insert [] b y)
      · rw [h]
        split
        · next hxy => exact hxy ▸ (iha b).cons x
        · exact Edits.head (Edit.substitute [] a x y) ((iha b).cons y)

/-! ### One edit of the target

Each lemma here is about every source, so that the induction on the source goes through. -/

theorem editDistance_cons_left_le (x : α) (a b : List α) :
    editDistance (x :: a) b ≤ editDistance a b + 1 := by
  cases b with
  | nil => simp
  | cons y b =>
    rw [editDistance_cons_cons]
    omega

theorem editDistance_cons_right_le (a b : List α) (y : α) :
    editDistance a (y :: b) ≤ editDistance a b + 1 := by
  cases a with
  | nil => simp
  | cons x a =>
    rw [editDistance_cons_cons]
    omega

theorem editDistance_le_cons_right (a b : List α) (y : α) :
    editDistance a b ≤ editDistance a (y :: b) + 1 := by
  induction a with
  | nil =>
    simp only [editDistance_nil_left, List.length_cons]
    omega
  | cons x a ih =>
    have hx := editDistance_cons_left_le x a b
    rw [editDistance_cons_cons]
    omega

theorem editDistance_substitute_le (a b : List α) (y z : α) :
    editDistance a (z :: b) ≤ editDistance a (y :: b) + 1 := by
  induction a with
  | nil => simp
  | cons x a ih =>
    rw [editDistance_cons_cons, editDistance_cons_cons]
    split <;> split <;> omega

/-- What holds for every source is kept when the target gets another element in front. -/
theorem editDistance_cons_le (h : ∀ a, editDistance a c ≤ editDistance a b + 1)
    (a : List α) (y : α) :
    editDistance a (y :: c) ≤ editDistance a (y :: b) + 1 := by
  induction a with
  | nil =>
    have hnil := h []
    simp only [editDistance_nil_left, List.length_cons] at hnil ⊢
    omega
  | cons x a ih =>
    have hhere := h (x :: a)
    have hafter := h a
    rw [editDistance_cons_cons, editDistance_cons_cons]
    omega

theorem editDistance_append_le (h : ∀ a, editDistance a c ≤ editDistance a b + 1) (u a : List α) :
    editDistance a (u ++ c) ≤ editDistance a (u ++ b) + 1 := by
  induction u generalizing a with
  | nil => exact h a
  | cons y u ih => exact editDistance_cons_le ih a y

theorem editDistance_edit_le (h : Edit b c) (a : List α) :
    editDistance a c ≤ editDistance a b + 1 := by
  cases h with
  | insert u v y => exact editDistance_append_le (fun a => editDistance_cons_right_le a v y) u a
  | delete u v x => exact editDistance_append_le (fun a => editDistance_le_cons_right a v x) u a
  | substitute u v x y =>
    exact editDistance_append_le (fun a => editDistance_substitute_le a v x y) u a

@[simp] theorem editDistance_self (a : List α) : editDistance a a = 0 := by
  induction a with
  | nil => simp
  | cons x a ih => simp [editDistance_cons_cons, ih]

theorem editDistance_le (h : Edits n a b) : editDistance a b ≤ n := by
  induction h with
  | refl a => simp
  | tail _ hedit ih => exact (editDistance_edit_le hedit _).trans (Nat.succ_le_succ ih)

/-! ### The least number -/

/-- **`editDistance` is the least number of edits that turn the one list into the other.** -/
theorem isLeast_editDistance (a b : List α) : IsLeast {n | Edits n a b} (editDistance a b) :=
  ⟨edits_editDistance a b, fun _ h => editDistance_le h⟩

/-- The lists may be read from either end. -/
theorem editDistance_reverse (a b : List α) :
    editDistance a.reverse b.reverse = editDistance a b := by
  refine Nat.le_antisymm (editDistance_le (edits_editDistance a b).reverse) (editDistance_le ?_)
  simpa using (edits_editDistance a.reverse b.reverse).reverse

end

/-! ### The first least element -/

/-- `x` is the first element of the list at which `f` is least. -/
def IsFirstLeast {α : Type*} (f : α → ℕ) (l : List α) (x : α) : Prop :=
  ∃ front back, l = front ++ x :: back ∧ (∀ y ∈ front, f x < f y) ∧ ∀ y ∈ back, f x ≤ f y

namespace IsFirstLeast

variable {α : Type*} {f : α → ℕ} {l : List α} {x y : α}

theorem singleton (x : α) : IsFirstLeast f [x] x := ⟨[], [], rfl, by simp, by simp⟩

/-- It stays the first if the next one is no smaller. -/
theorem concat_of_le (h : IsFirstLeast f l x) (hy : f x ≤ f y) : IsFirstLeast f (l ++ [y]) x := by
  obtain ⟨front, back, rfl, hfront, hback⟩ := h
  refine ⟨front, back ++ [y], by simp, hfront, ?_⟩
  simpa [or_imp, forall_and] using ⟨hback, hy⟩

/-- A smaller one takes its place. -/
theorem concat_of_lt (h : IsFirstLeast f l x) (hy : f y < f x) : IsFirstLeast f (l ++ [y]) y := by
  obtain ⟨front, back, rfl, hfront, hback⟩ := h
  refine ⟨front ++ x :: back, [], rfl, ?_, by simp⟩
  intro z hz
  rcases List.mem_append.mp hz with hz | hz
  · exact hy.trans (hfront z hz)
  · rcases List.mem_cons.mp hz with rfl | hz
    · exact hy
    · exact hy.trans_le (hback z hz)

theorem mem (h : IsFirstLeast f l x) : x ∈ l := by
  obtain ⟨front, back, rfl, _, _⟩ := h
  simp

/-- Two such elements are one: of two places, the later one holds no less and the earlier one
more. -/
theorem unique (hx : IsFirstLeast f l x) (hy : IsFirstLeast f l y) : x = y := by
  obtain ⟨front, back, rfl, hfront, hback⟩ := hx
  obtain ⟨front', back', hl, hfront', hback'⟩ := hy
  rcases List.append_eq_append_iff.mp hl with ⟨mid, rfl, hmid⟩ | ⟨mid, rfl, hmid⟩
  · cases mid with
    | nil => exact (List.cons.inj hmid).1
    | cons z mid =>
      obtain ⟨rfl, rfl⟩ := List.cons.inj hmid
      have hlt := hfront' x (by simp)
      have hle := hback y (by simp)
      omega
  · cases mid with
    | nil => exact (List.cons.inj hmid).1.symm
    | cons z mid =>
      obtain ⟨rfl, rfl⟩ := List.cons.inj hmid
      have hlt := hfront y (by simp)
      have hle := hback' x (by simp)
      omega

end IsFirstLeast

theorem exists_first_least {α : Type*} (f : α → ℕ) {l : List α} (h : l ≠ []) :
    ∃ x, IsFirstLeast f l x := by
  induction l using List.reverseRecOn with
  | nil => exact absurd rfl h
  | append_singleton l y ih =>
    by_cases hl : l = []
    · subst hl
      exact ⟨y, .singleton y⟩
    · obtain ⟨x, hx⟩ := ih hl
      rcases Nat.lt_or_ge (f y) (f x) with hlt | hle
      · exact ⟨y, hx.concat_of_lt hlt⟩
      · exact ⟨x, hx.concat_of_le hle⟩

end NgLog
