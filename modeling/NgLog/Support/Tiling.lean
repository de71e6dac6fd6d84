import Mathlib.Data.List.Pairwise
import Mathlib.Order.Defs.LinearOrder
import Mathlib.Tactic.Common

/-!
# Tilings of an interval

A list of half-open intervals tiles `[a, b)` if the first one starts at `a`, each starts where the
one before it stops, and the last one stops at `b`.

## Main definitions

* `Tiles` — the intervals tile `[a, b)`

## Main results

* `Tiles.concat` — another interval at the end
* `Tiles.pairwise` — the intervals are disjoint, in order
* `Tiles.isChain`, `Tiles.head` — they are contiguous, from the start
-/

namespace NgLog

variable {α : Type*} {a b c : α} {tiles : List (α × α)}

/-- The intervals tile `[a, b)`. -/
def Tiles [LE α] : α → List (α × α) → α → Prop
  | a, [], b => a = b
  | a, t :: tiles, b => t.1 = a ∧ a ≤ t.2 ∧ Tiles t.2 tiles b

theorem tiles_nil [LE α] : Tiles a [] b ↔ a = b := Iff.rfl

theorem tiles_cons [LE α] {t : α × α} :
    Tiles a (t :: tiles) b ↔ t.1 = a ∧ a ≤ t.2 ∧ Tiles t.2 tiles b := Iff.rfl

namespace Tiles

variable [Preorder α]

/-- An interval may be added where the others stop. -/
theorem concat (h : Tiles a tiles b) (hbc : b ≤ c) : Tiles a (tiles ++ [(b, c)]) c := by
  induction tiles generalizing a with
  | nil =>
    obtain rfl : a = b := h
    exact ⟨rfl, hbc, rfl⟩
  | cons t tiles ih =>
    obtain ⟨hstart, hle, htail⟩ := tiles_cons.mp h
    exact ⟨hstart, hle, ih htail⟩

/-- The intervals lie in `[a, b)`. -/
theorem bounds (h : Tiles a tiles b) : a ≤ b ∧ ∀ t ∈ tiles, a ≤ t.1 ∧ t.2 ≤ b := by
  induction tiles generalizing a with
  | nil => exact ⟨le_of_eq h, nofun⟩
  | cons t tiles ih =>
    obtain ⟨hstart, hle, htail⟩ := tiles_cons.mp h
    obtain ⟨hstop, hmem⟩ := ih htail
    refine ⟨le_trans hle hstop, fun u hu => ?_⟩
    rcases List.mem_cons.mp hu with rfl | hu
    · exact ⟨ge_of_eq hstart, hstop⟩
    · exact ⟨le_trans hle (hmem u hu).1, (hmem u hu).2⟩

/-- Each interval stops where a later one starts, or before. -/
theorem pairwise (h : Tiles a tiles b) : tiles.Pairwise fun t u => t.2 ≤ u.1 := by
  induction tiles generalizing a with
  | nil => exact .nil
  | cons t tiles ih =>
    obtain ⟨_, _, htail⟩ := tiles_cons.mp h
    exact .cons (fun u hu => (htail.bounds.2 u hu).1) (ih htail)

/-- Each interval starts where the one before it stops. -/
theorem isChain (h : Tiles a tiles b) : tiles.IsChain fun t u => u.1 = t.2 := by
  induction tiles generalizing a with
  | nil => exact .nil
  | cons t tiles ih =>
    obtain ⟨_, _, htail⟩ := tiles_cons.mp h
    cases tiles with
    | nil => exact .singleton t
    | cons u tiles => exact .cons_cons (tiles_cons.mp htail).1 (ih htail)

/-- The first interval starts at `a`. -/
theorem head (h : Tiles a tiles b) : ∀ t ∈ tiles.head?, t.1 = a := by
  cases tiles with
  | nil => exact nofun
  | cons t tiles =>
    rintro u ⟨⟩
    exact (tiles_cons.mp h).1

/-- The last interval stops at `b`. -/
theorem getLast (h : Tiles a tiles b) : ∀ t ∈ tiles.getLast?, t.2 = b := by
  induction tiles generalizing a with
  | nil => exact nofun
  | cons t tiles ih =>
    obtain ⟨_, _, htail⟩ := tiles_cons.mp h
    cases tiles with
    | nil =>
      rintro u ⟨⟩
      exact htail
    | cons u tiles => exact ih htail

end Tiles

end NgLog
