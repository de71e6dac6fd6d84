import Mathlib.Data.List.TakeWhile
import Mathlib.Data.Nat.Init
import Mathlib.Tactic.Common

/-!
# Lists with a delimiter

A hand-written splitter looks for the next delimiter, takes what is before it, and goes on behind
it. Its reasoning is an induction on what is left: there is no delimiter, or there is a first one.

## Main results

* `delimited_induction` — the induction over the parts of a list
* `takeWhile_append_of_head`, `head_dropWhile` — the elements before the first one of another kind
* `takeWhile_ne_append`, `dropWhile_ne_append` — what is before and from the first delimiter on
-/

namespace NgLog

section

variable {α : Type*} {p : α → Bool} {front back : List α}

/-- The elements before the first one that does not satisfy `p`. -/
theorem takeWhile_append_of_head (hfront : ∀ c ∈ front, p c = true)
    (hback : ∀ c ∈ back.head?, p c = false) : (front ++ back).takeWhile p = front := by
  rw [List.takeWhile_append_of_pos hfront]
  cases back with
  | nil => simp
  | cons c back => simp [hback c rfl]

theorem head_dropWhile (text : List α) : ∀ c ∈ (text.dropWhile p).head?, p c = false := by
  intro c hc
  have hlast := List.head?_dropWhile_not p text
  rw [Option.mem_def.mp hc] at hlast
  simpa using hlast

end

section Delimiters

variable {α : Type*} [DecidableEq α] {c : α} {front text : List α}

theorem forall_ne_of_notMem (h : c ∉ text) : ∀ d ∈ text, decide (d ≠ c) = true := by
  intro d hd
  simp only [decide_eq_true_eq]
  rintro rfl
  exact h hd

theorem takeWhile_ne_of_notMem (h : c ∉ text) : text.takeWhile (· ≠ c) = text :=
  List.takeWhile_eq_self_iff.mpr (forall_ne_of_notMem h)

theorem dropWhile_ne_of_notMem (h : c ∉ text) : text.dropWhile (· ≠ c) = [] :=
  List.dropWhile_eq_nil_iff.mpr (forall_ne_of_notMem h)

theorem mem_of_mem_takeWhile_ne {d : α} (h : d ∈ (front ++ c :: back).takeWhile (· ≠ c)) :
    d ∈ front := by
  rw [List.takeWhile_append] at h
  split at h
  · rwa [List.takeWhile_cons_of_neg (by simp), List.append_nil] at h
  · exact List.takeWhile_subset _ h

theorem takeWhile_ne_append (h : c ∉ front) (back : List α) :
    (front ++ c :: back).takeWhile (· ≠ c) = front := by
  rw [List.takeWhile_append_of_pos (forall_ne_of_notMem h)]
  simp

theorem dropWhile_ne_append (h : c ∉ front) (back : List α) :
    (front ++ c :: back).dropWhile (· ≠ c) = c :: back := by
  rw [List.dropWhile_append_of_pos (forall_ne_of_notMem h)]
  simp

/-- **Induction over the parts of a list between delimiters.** -/
@[elab_as_elim]
theorem delimited_induction (c : α) {motive : List α → Prop}
    (last : ∀ text, c ∉ text → motive text)
    (cons : ∀ front back, c ∉ front → motive back → motive (front ++ c :: back)) (text : List α) :
    motive text := by
  induction hn : text.length using Nat.strong_induction_on generalizing text with
  | _ n ih =>
    by_cases hc : c ∈ text
    · obtain ⟨front, back, rfl, hfront⟩ := List.eq_append_cons_of_mem hc
      refine cons front back hfront (ih back.length ?_ back rfl)
      rw [← hn, List.length_append, List.length_cons]
      omega
    · exact last text hc

end Delimiters

end NgLog
