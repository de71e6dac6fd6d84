import Mathlib.Data.List.Pairwise
import Mathlib.Data.Nat.Notation
import Mathlib.Tactic.Common

/-!
# Labelled intervals

A `Span α` labels the indices `[start, stop)` with a value. A list of spans is `Ordered` when none
is empty and each ends before the next begins; then every index has at most one label, and
`lookup` finds it.

## Main definitions

* `Span`, `Span.lookup` — labelled intervals, and the label of an index
* `Span.Ordered`, `Span.Overlapping` — disjoint in order, or some neighbours that are not

## Main results

* `Span.lookup_append_mem`, `Span.lookup_append_of_lt` — the labels after a span is added
* `Span.ordered_append` — when a span may be added
-/

namespace NgLog

/-- The indices from `start` up to `stop`, with a value. -/
structure Span (α : Type*) where
  start : ℕ
  stop : ℕ
  value : α

namespace Span

variable {α : Type*} {spans : List (Span α)} {s : Span α} {i : ℕ}

/-- The index lies in the span. -/
def Covers (s : Span α) (i : ℕ) : Prop := s.start ≤ i ∧ i < s.stop

instance (s : Span α) (i : ℕ) : Decidable (s.Covers i) := inferInstanceAs (Decidable (_ ∧ _))

/-- The value of the first span that covers the index. -/
def lookup (spans : List (Span α)) (i : ℕ) : Option α :=
  (spans.find? fun s => s.Covers i).map value

/-- No span is empty, and each one ends where the next begins or before. -/
structure Ordered (spans : List (Span α)) : Prop where
  nonempty : ∀ s ∈ spans, s.start < s.stop
  pairwise : spans.Pairwise fun s t => s.stop ≤ t.start

/-- Two neighbours overlap, and no span is empty. -/
structure Overlapping (spans : List (Span α)) : Prop where
  nonempty : ∀ s ∈ spans, s.start < s.stop
  overlap : ∃ pre s t post, spans = pre ++ s :: t :: post ∧ t.start < s.stop

theorem ordered_nil : Ordered ([] : List (Span α)) := ⟨nofun, .nil⟩

theorem lookup_nil : lookup ([] : List (Span α)) i = none := rfl

theorem lookup_cons : lookup (s :: spans) i = if s.Covers i then some s.value
    else lookup spans i := by
  rw [lookup, List.find?_cons]
  split <;> simp_all [lookup]

/-- An index that no span covers has no label. -/
theorem lookup_eq_none (h : ∀ s ∈ spans, ¬s.Covers i) : lookup spans i = none := by
  rw [lookup, Option.map_eq_none_iff, List.find?_eq_none]
  exact fun s hs => by simpa using h s hs

theorem lookup_eq_none_of_stop_le (h : ∀ s ∈ spans, s.stop ≤ i) : lookup spans i = none :=
  lookup_eq_none fun s hs hc => Nat.not_lt_of_le (h s hs) hc.2

theorem lookup_eq_none_of_lt_start (h : ∀ s ∈ spans, i < s.start) : lookup spans i = none :=
  lookup_eq_none fun s hs hc => Nat.not_le_of_lt (h s hs) hc.1

theorem lookup_append (spans spans' : List (Span α)) (i : ℕ) :
    lookup (spans ++ spans') i = (lookup spans i).or (lookup spans' i) := by
  simp only [lookup, List.find?_append, Option.map_or]

/-- A span added at the end labels its own indices, if the others end before it. -/
theorem lookup_append_mem (h : ∀ t ∈ spans, t.stop ≤ s.start) (hi : s.Covers i) :
    lookup (spans ++ [s]) i = some s.value := by
  rw [lookup_append, lookup_eq_none_of_stop_le fun t ht => Nat.le_trans (h t ht) hi.1,
    Option.none_or, lookup_cons, if_pos hi]

/-- A span added at the end leaves the labels before it alone. -/
theorem lookup_append_of_lt (hi : i < s.start) : lookup (spans ++ [s]) i = lookup spans i := by
  rw [lookup_append, lookup_cons, if_neg fun hc => Nat.not_le_of_lt hi hc.1, lookup_nil,
    Option.or_none]

theorem ordered_append (h : Ordered spans) (hs : s.start < s.stop)
    (hle : ∀ t ∈ spans, t.stop ≤ s.start) : Ordered (spans ++ [s]) := by
  refine ⟨fun t ht => ?_, List.pairwise_append.mpr ⟨h.pairwise, List.pairwise_singleton .., ?_⟩⟩
  · rcases List.mem_append.mp ht with ht | ht
    · exact h.nonempty t ht
    · exact List.mem_singleton.mp ht ▸ hs
  · exact fun t ht u hu => List.mem_singleton.mp hu ▸ hle t ht

theorem Ordered.tail (h : Ordered (s :: spans)) : Ordered spans :=
  ⟨fun t ht => h.nonempty t (List.mem_cons_of_mem _ ht), (List.pairwise_cons.mp h.pairwise).2⟩

/-- In an ordered list the other spans begin at the end of the first or later. -/
theorem Ordered.stop_le (h : Ordered (s :: spans)) : ∀ t ∈ spans, s.stop ≤ t.start :=
  (List.pairwise_cons.mp h.pairwise).1

/-- An overlap stays when a span is added. -/
theorem Overlapping.append (h : Overlapping spans) (hs : s.start < s.stop) :
    Overlapping (spans ++ [s]) := by
  obtain ⟨pre, t, u, post, rfl, hlt⟩ := h.overlap
  refine ⟨fun t ht => ?_, pre, t, u, post ++ [s], by simp, hlt⟩
  rcases List.mem_append.mp ht with ht | ht
  · exact h.nonempty t ht
  · exact List.mem_singleton.mp ht ▸ hs

/-- A span that begins before the last one ends makes an overlap. -/
theorem overlapping_append {last : Span α} (hspans : ∀ t ∈ spans, t.start < t.stop)
    (hlast : spans.getLast? = some last) (hs : s.start < s.stop) (hlt : s.start < last.stop) :
    Overlapping (spans ++ [s]) := by
  obtain ⟨pre, rfl⟩ := List.getLast?_eq_some_iff.mp hlast
  refine ⟨fun t ht => ?_, pre, last, s, [], by simp, hlt⟩
  rcases List.mem_append.mp ht with ht | ht
  · exact hspans t ht
  · exact List.mem_singleton.mp ht ▸ hs

end Span

end NgLog
