import Mathlib.Logic.Function.Basic

/-!
# Partial maps

A function to an option type, as the value of a map container: `Function.update` with `some value`
inserts or overwrites a key, and with `none` erases it.

## Main results

* `update_some_eq_some`, `update_none_eq_some` — what a map holds after an insertion or an erasure
* `isSome_update_some`, `isSome_update_none` — its keys
-/

namespace NgLog

namespace PartialMap

variable {α β : Type*} [DecidableEq α] {f : α → Option β} {a x : α} {b c : β}

/-- After an insertion a key has the new value, or another key its own. -/
theorem update_some_eq_some :
    Function.update f a (some b) x = some c ↔ (x = a ∧ b = c) ∨ (x ≠ a ∧ f x = some c) := by
  by_cases h : x = a
  · subst h
    simp
  · simp [h]

/-- After an erasure only the other keys have values. -/
theorem update_none_eq_some :
    Function.update f a none x = some c ↔ x ≠ a ∧ f x = some c := by
  by_cases h : x = a
  · subst h
    simp
  · simp [h]

theorem update_some_eq_none :
    Function.update f a (some b) x = none ↔ x ≠ a ∧ f x = none := by
  by_cases h : x = a
  · subst h
    simp
  · simp [h]

theorem update_none_eq_none :
    Function.update f a none x = none ↔ x = a ∨ f x = none := by
  by_cases h : x = a
  · subst h
    simp
  · simp [h]

theorem isSome_update_some :
    (Function.update f a (some b) x).isSome = true ↔ x = a ∨ (f x).isSome = true := by
  by_cases h : x = a
  · subst h
    simp
  · simp [h]

theorem isSome_update_none :
    (Function.update f a none x).isSome = true ↔ x ≠ a ∧ (f x).isSome = true := by
  by_cases h : x = a
  · subst h
    simp
  · simp [h]

end PartialMap

end NgLog
