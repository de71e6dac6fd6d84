import Mathlib.Computability.Language
import NgLog.VLog.Sites

/-!
# The language of a pattern

In a pattern `*` stands for any sequence of characters, `?` for any one character, and every other
character for itself. `SafeFNMatch_` accepts no other strings, but not all of these. It compares
literally before it looks for a wildcard, so a `*` of the pattern that meets a `*` of the string
takes this one and nothing else; and once the string is used up it accepts a single `*` only, so a
`*` that is not the last character of the pattern must leave something of the string.

## Main definitions

* `pieceLanguage`, `patternLanguage` — what a character and what a pattern stand for
* `Divides` — a string is divided among the characters of a pattern
* `Direct` — a division that `SafeFNMatch_` finds

## Main results

* `safeFNMatch_iff` — what `SafeFNMatch_` accepts
* `safeFNMatch_eq_language_iff` — when it decides the language
* `safeFNMatch_iff_mem` — it does for ordinary patterns and strings
-/

namespace NgLog

namespace VLog

/-! ### The language -/

/-- The strings that one character of a pattern stands for. -/
def pieceLanguage (p : Byte) : Language Byte :=
  { x : List Byte | if p = star then True else if p = questionMark then x.length = 1 else x = [p] }

/-- The strings that a pattern stands for. -/
def patternLanguage (pattern : List Byte) : Language Byte := (pattern.map pieceLanguage).prod

theorem mem_piece_star (x : List Byte) : x ∈ pieceLanguage star := trivial

theorem mem_piece_questionMark {x : List Byte} :
    x ∈ pieceLanguage questionMark ↔ x.length = 1 := Iff.rfl

theorem mem_piece_of_ne {p : Byte} (hstar : p ≠ star) (hmark : p ≠ questionMark) {x : List Byte} :
    x ∈ pieceLanguage p ↔ x = [p] := by
  show (if p = star then True else if p = questionMark then x.length = 1 else x = [p]) ↔ _
  rw [if_neg hstar, if_neg hmark]

/-- Only a star stands for the empty string. -/
theorem eq_star_of_nil_mem {p : Byte} (h : [] ∈ pieceLanguage p) : p = star := by
  by_contra hstar
  by_cases hmark : p = questionMark
  · subst hmark
    exact absurd (mem_piece_questionMark.mp h) (by simp)
  · exact absurd ((mem_piece_of_ne hstar hmark).mp h) (by simp)

theorem singleton_mem_piece {p c : Byte} (h : p = c ∨ p = questionMark) :
    [c] ∈ pieceLanguage p := by
  by_cases hstar : p = star
  · exact hstar ▸ mem_piece_star _
  by_cases hmark : p = questionMark
  · exact hmark ▸ mem_piece_questionMark.mpr rfl
  · exact (mem_piece_of_ne hstar hmark).mpr (congrArg (fun b => [b]) (h.resolve_right hmark).symm)

/-- The string is the pieces in a row, one for each character of the pattern. -/
structure Divides (pattern : List Byte) (pieces : List (List Byte)) (str : List Byte) : Prop where
  standsFor : List.Forall₂ (fun p x => x ∈ pieceLanguage p) pattern pieces
  flatten : pieces.flatten = str

theorem mem_patternLanguage {pattern str : List Byte} :
    str ∈ patternLanguage pattern ↔ ∃ pieces, Divides pattern pieces str := by
  induction pattern generalizing str with
  | nil =>
    rw [patternLanguage, List.map_nil, List.prod_nil, Language.mem_one]
    constructor
    · rintro rfl
      exact ⟨[], .nil, rfl⟩
    · rintro ⟨pieces, hpieces, rfl⟩
      cases hpieces
      rfl
  | cons p pattern ih =>
    rw [patternLanguage, List.map_cons, List.prod_cons, Language.mem_mul]
    constructor
    · rintro ⟨x, hx, t, ht, rfl⟩
      obtain ⟨pieces, hpieces, rfl⟩ := ih.mp ht
      exact ⟨x :: pieces, .cons hx hpieces, rfl⟩
    · rintro ⟨pieces, hpieces, rfl⟩
      cases hpieces with
      | cons hx hpieces => exact ⟨_, hx, _, ih.mpr ⟨_, hpieces, rfl⟩, rfl⟩

/-! ### What `SafeFNMatch_` accepts -/

/-- A star that meets a star takes this one alone; any other, unless it ends the pattern, leaves
something of the string. -/
def Direct : List Byte → List (List Byte) → Prop
  | p :: pattern, x :: pieces =>
    (p = star → if (x ++ pieces.flatten).head? = some star then x = [star]
      else pattern = [] ∨ pieces.flatten ≠ []) ∧ Direct pattern pieces
  | _, _ => True

/-- The loop after a star tries every rest of the string but the empty one. -/
theorem matchesSomeRest_iff {f : List Byte → Bool} {str : List Byte} :
    matchesSomeRest f str = true ↔ ∃ x t, x ++ t = str ∧ t ≠ [] ∧ f t = true := by
  induction str with
  | nil =>
    refine iff_of_false Bool.false_ne_true ?_
    rintro ⟨x, t, happend, ht, -⟩
    exact ht (List.append_eq_nil_iff.mp happend).2
  | cons c str ih =>
    rw [matchesSomeRest, Bool.or_eq_true, ih]
    constructor
    · rintro (h | ⟨x, t, rfl, ht, h⟩)
      · exact ⟨[], c :: str, rfl, List.cons_ne_nil c str, h⟩
      · exact ⟨c :: x, t, rfl, ht, h⟩
    · rintro ⟨_ | ⟨b, x⟩, t, happend, ht, h⟩
      · exact .inl (happend ▸ h)
      · exact .inr ⟨x, t, (List.cons.inj happend).2, ht, h⟩

/-- The string has a direct division. -/
def DirectlyDivides (pattern str : List Byte) : Prop :=
  ∃ pieces, Divides pattern pieces str ∧ Direct pattern pieces

theorem directlyDivides_nil {str : List Byte} : DirectlyDivides [] str ↔ str = [] := by
  constructor
  · rintro ⟨pieces, ⟨hpieces, rfl⟩, -⟩
    cases hpieces
    rfl
  · rintro rfl
    exact ⟨[], ⟨.nil, rfl⟩, trivial⟩

/-- At the end of the string there is only a last star. -/
theorem directlyDivides_end {p : Byte} {pattern : List Byte} :
    DirectlyDivides (p :: pattern) [] ↔ pattern = [] ∧ p = star := by
  constructor
  · rintro ⟨pieces, ⟨hpieces, hflatten⟩, hdirect⟩
    cases hpieces with
    | cons hx hpieces =>
      obtain ⟨rfl, hrest⟩ := List.append_eq_nil_iff.mp hflatten
      obtain rfl := eq_star_of_nil_mem hx
      have hstar := hdirect.1 rfl
      rw [hrest] at hstar
      exact ⟨hstar.resolve_right fun h => h rfl, rfl⟩
  · rintro ⟨rfl, rfl⟩
    exact ⟨[[]], ⟨.cons (mem_piece_star []) .nil, rfl⟩, fun _ => .inl rfl, trivial⟩

/-- A literal character, and a star too where it meets a star. -/
theorem directlyDivides_literal {p c : Byte} {pattern str : List Byte}
    (h : p = c ∨ p = questionMark) :
    DirectlyDivides (p :: pattern) (c :: str) ↔ DirectlyDivides pattern str := by
  have hmark : questionMark ≠ star := by decide
  constructor
  · rintro ⟨pieces, ⟨hpieces, hflatten⟩, hdirect⟩
    cases hpieces with
    | @cons _ x _ pieces hx hpieces =>
      have hone : x = [c] := by
        by_cases hstar : p = star
        · have hc : c = star :=
            (h.resolve_right fun hp => hmark (hp.symm.trans hstar)).symm.trans hstar
          have hhead := hdirect.1 hstar
          rw [show x ++ pieces.flatten = c :: str from hflatten, hc,
            if_pos (show (star :: str).head? = some star from rfl)] at hhead
          exact hhead.trans (congrArg (fun b => [b]) hc.symm)
        · by_cases hquestion : p = questionMark
          · obtain ⟨b, rfl⟩ := List.length_eq_one_iff.mp
              (mem_piece_questionMark.mp (hquestion ▸ hx))
            exact congrArg (fun b => [b]) (List.cons.inj hflatten).1
          · rw [(mem_piece_of_ne hstar hquestion).mp hx, h.resolve_right hquestion]
      subst hone
      exact ⟨pieces, ⟨hpieces, (List.cons.inj hflatten).2⟩, hdirect.2⟩
  · rintro ⟨pieces, ⟨hpieces, rfl⟩, hdirect⟩
    refine ⟨[c] :: pieces, ⟨.cons (singleton_mem_piece h) hpieces, rfl⟩, fun hstar => ?_, hdirect⟩
    have hc : c = star := (h.resolve_right fun hp => hmark (hp.symm.trans hstar)).symm.trans hstar
    rw [hc]
    exact rfl

/-- A star that does not meet a star. -/
theorem directlyDivides_star {c : Byte} {pattern str : List Byte} (hc : c ≠ star) :
    DirectlyDivides (star :: pattern) (c :: str) ↔
      pattern = [] ∨ ∃ x t, x ++ t = c :: str ∧ t ≠ [] ∧ DirectlyDivides pattern t := by
  have hhead : ¬(c :: str).head? = some star := fun h => hc (Option.some.inj h)
  constructor
  · rintro ⟨pieces, ⟨hpieces, hflatten⟩, hdirect⟩
    cases hpieces with
    | @cons _ x _ pieces hx hpieces =>
      have hstar := hdirect.1 rfl
      rw [show x ++ pieces.flatten = c :: str from hflatten, if_neg hhead] at hstar
      exact hstar.imp id fun ht =>
        ⟨x, pieces.flatten, hflatten, ht, pieces, ⟨hpieces, rfl⟩, hdirect.2⟩
  · rintro (rfl | ⟨x, t, happend, ht, pieces, ⟨hpieces, rfl⟩, hdirect⟩)
    · refine ⟨[c :: str], ⟨.cons (mem_piece_star _) .nil, by simp⟩, fun _ => ?_, trivial⟩
      rw [List.flatten_nil, List.append_nil, if_neg hhead]
      exact .inl rfl
    · refine ⟨x :: pieces, ⟨.cons (mem_piece_star x) hpieces, happend⟩, fun _ => ?_, hdirect⟩
      rw [happend, if_neg hhead]
      exact .inr ht

/-- Any other character does not stand for the one that it meets. -/
theorem not_directlyDivides {p c : Byte} {pattern str : List Byte}
    (h : ¬(p = c ∨ p = questionMark)) (hstar : p ≠ star) :
    ¬DirectlyDivides (p :: pattern) (c :: str) := by
  rw [not_or] at h
  rintro ⟨pieces, ⟨hpieces, hflatten⟩, -⟩
  cases hpieces with
  | cons hx hpieces =>
    rw [List.flatten_cons, (mem_piece_of_ne hstar h.2).mp hx] at hflatten
    exact h.1 (List.cons.inj hflatten).1

theorem safeFNMatch_cons (p c : Byte) (pattern str : List Byte) :
    safeFNMatch (p :: pattern) (c :: str) =
      if p = c ∨ p = questionMark then safeFNMatch pattern str
      else if p = star then
        if pattern.isEmpty then true else matchesSomeRest (safeFNMatch pattern) (c :: str)
      else false := rfl

/-- The strings that are accepted are those with a direct division. -/
theorem safeFNMatch_iff {pattern str : List Byte} :
    safeFNMatch pattern str = true ↔ DirectlyDivides pattern str := by
  induction pattern generalizing str with
  | nil => rw [safeFNMatch, List.isEmpty_iff, directlyDivides_nil]
  | cons p pattern ih =>
    rcases str with _ | ⟨c, str⟩
    · rw [safeFNMatch, Bool.and_eq_true, List.isEmpty_iff, beq_iff_eq, directlyDivides_end]
    · rw [safeFNMatch_cons]
      by_cases hliteral : p = c ∨ p = questionMark
      · rw [if_pos hliteral, ih, directlyDivides_literal hliteral]
      by_cases hstar : p = star
      · subst hstar
        rw [if_neg hliteral, if_pos rfl, directlyDivides_star fun hc => hliteral (.inl hc.symm)]
        by_cases hlast : pattern = []
        · simp [hlast]
        · rw [if_neg (by simpa using hlast), matchesSomeRest_iff]
          simp only [ih, hlast, false_or]
      · rw [if_neg hliteral, if_neg hstar]
        exact iff_of_false Bool.false_ne_true (not_directlyDivides hliteral hstar)

/-! ### When it decides the language -/

/-- `SafeFNMatch_` decides whether a string belongs to the language of a pattern, unless the string
belongs to it and none of its divisions is direct. -/
theorem safeFNMatch_eq_language_iff (pattern str : List Byte) :
    (safeFNMatch pattern str = true ↔ str ∈ patternLanguage pattern) ↔
      (str ∈ patternLanguage pattern → DirectlyDivides pattern str) := by
  rw [safeFNMatch_iff]
  have hmem : DirectlyDivides pattern str → str ∈ patternLanguage pattern :=
    fun ⟨pieces, hpieces, _⟩ => mem_patternLanguage.mpr ⟨pieces, hpieces⟩
  exact ⟨fun h => h.mpr, fun h => ⟨hmem, h⟩⟩

/-- Two strings in the language that are not accepted: a star of the pattern takes the star of the
string alone, and the first of two stars takes the end of the string. -/
theorem safeFNMatch_misses : ¬∀ pattern str : List Byte,
    safeFNMatch pattern str = true ↔ str ∈ patternLanguage pattern := by
  intro h
  have hmem : bytes "*ab" ∈ patternLanguage (bytes "*b") :=
    mem_patternLanguage.mpr ⟨[bytes "*a", bytes "b"],
      .cons (mem_piece_star _)
        (.cons ((mem_piece_of_ne (by decide) (by decide)).mpr rfl) .nil), rfl⟩
  exact absurd ((h (bytes "*b") (bytes "*ab")).mpr hmem) (by decide)

example : safeFNMatch (bytes "a**") (bytes "a") = false := by decide

/-- Two characters that are not both stars. -/
def NotBothStars (p q : Byte) : Prop := ¬(p = star ∧ q = star)

/-- Without a star in the string, a star that takes its end is followed by nothing or by a star. -/
theorem direct_of_divides {pattern : List Byte} {pieces : List (List Byte)}
    (hpieces : List.Forall₂ (fun p x => x ∈ pieceLanguage p) pattern pieces)
    (hpattern : pattern.IsChain NotBothStars) (hstr : star ∉ pieces.flatten) :
    Direct pattern pieces := by
  induction hpieces with
  | nil => trivial
  | @cons p x pattern pieces hx hpieces ih =>
    rw [List.flatten_cons, List.mem_append, not_or] at hstr
    refine ⟨fun hstar => ?_, ih hpattern.of_cons hstr.2⟩
    have hhead : ¬(x ++ pieces.flatten).head? = some star := by
      intro hhead
      have hmem := List.mem_of_mem_head? hhead
      rw [List.mem_append] at hmem
      exact hmem.elim hstr.1 hstr.2
    rw [if_neg hhead]
    cases hpieces with
    | nil => exact .inl rfl
    | @cons q y pattern pieces hy hpieces =>
      refine .inr fun hempty => ?_
      rw [List.flatten_cons, List.append_eq_nil_iff] at hempty
      have hq := eq_star_of_nil_mem (hempty.1 ▸ hy)
      exact (List.isChain_cons_cons.mp hpattern).1 ⟨hstar, hq⟩

/-- Patterns without two stars in a row decide the strings without stars. -/
theorem safeFNMatch_iff_mem {pattern str : List Byte} (hpattern : pattern.IsChain NotBothStars)
    (hstr : star ∉ str) : safeFNMatch pattern str = true ↔ str ∈ patternLanguage pattern := by
  rw [safeFNMatch_eq_language_iff, mem_patternLanguage]
  rintro ⟨pieces, hdivides⟩
  refine ⟨pieces, hdivides, direct_of_divides hdivides.standsFor hpattern ?_⟩
  rwa [hdivides.flatten]

end VLog

end NgLog
