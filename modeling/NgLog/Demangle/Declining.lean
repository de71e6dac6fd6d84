import NgLog.Demangle.Restoring
import NgLog.Demangle.Scanning
import NgLog.Support.Executions

/-!
# Parse functions that decline

Most alternatives of the grammar can be ruled out by the byte at the cursor: their first token is
not there, and they leave no trace. The lemmas here say which bytes a parse function needs.

## Main definitions

* `startsComponent` — the bytes with which a component of a nested name starts

## Main results

* `declines_parseOperatorName`, `declines_parseSourceName`, … — one for each parse function
* `declines_component` — none of them finds a component
-/

namespace NgLog

namespace Demangle

open Backtracking (Machine)
open Backtracking.Parser (Declines Fails After declines_of_fails)

variable {w : CString} {m : Machine State Store}

/-! ### Tokens -/

theorem underscore_ne_zero : '_'.toUInt8 ≠ 0 := by decide

theorem declines_parseOneCharToken (c : Char) (h : c.toUInt8 ≠ 0)
    (hm : m.state.mangledCur ≤ w.length) (hc : w.byteAt m.state.mangledCur ≠ c.toUInt8) :
    Declines (parseOneCharToken c h : Parser w Bool) m :=
  (parseOneCharToken_run c h hm).trans (if_neg hc)

/-- A token whose first byte is not the one at the cursor. -/
theorem declines_parseTwoCharToken (s : String) (h : (bytes s).length = 2)
    (hm : m.state.mangledCur ≤ w.length)
    (hs : w.byteAt m.state.mangledCur ≠ (bytes s).headD 0) :
    Declines (parseTwoCharToken s h : Parser w Bool) m := by
  refine (parseTwoCharToken_run s h hm).trans (if_neg fun hprefix => hs ?_)
  obtain ⟨tail, hrest⟩ := List.isPrefixOf_iff_prefix.mp hprefix
  rw [← headD_rest, ← hrest]
  rcases hbytes : bytes s with _ | ⟨b, text⟩
  · rw [hbytes] at h
    cases h
  · rfl

/-- A token of two bytes is not there if another one is. -/
theorem declines_of_prefix {s t : String} (h : (bytes s).length = 2) (ht : (bytes t).length = 2)
    (hm : m.state.mangledCur ≤ w.length) (htext : bytes t <+: rest w m.state)
    (hne : bytes s ≠ bytes t) : Declines (parseTwoCharToken s h : Parser w Bool) m :=
  (parseTwoCharToken_run s h hm).trans <| if_neg fun hprefix => hne <|
    List.IsPrefix.eq_of_length (List.prefix_of_prefix_length_le
      (List.isPrefixOf_iff_prefix.mp hprefix) htext (Nat.le_of_eq (h.trans ht.symm)))
        (h.trans ht.symm)

/-- The cursor is in the name where a token stands. -/
theorem cursor_le_of_prefix {t : List Byte} (ht : t ≠ []) (h : t <+: rest w m.state) :
    m.state.mangledCur ≤ w.length := by
  have hlen := h.length_le
  rw [length_rest] at hlen
  have := List.length_pos_iff.mpr ht
  omega

theorem declines_parseCharClass (s : String) (hm : m.state.mangledCur ≤ w.length)
    (hc : w.byteAt m.state.mangledCur ∉ bytes s) :
    Declines (parseCharClass s : Parser w Bool) m := by
  refine (bind_ok (peek_run 0 hm)).trans ?_
  have hclass : (bytes s).contains (w.byteAt m.state.mangledCur) = false := by
    rw [List.contains_eq_mem, decide_eq_false_iff_not]
    exact hc
  rw [Nat.add_zero, hclass, Bool.and_false, if_neg Bool.false_ne_true]
  rfl

/-- Neither a sign nor a digit is at the cursor. -/
theorem parseNumber_declines (hm : m.state.mangledCur ≤ w.length)
    (hsign : w.byteAt m.state.mangledCur ≠ 'n'.toUInt8)
    (hdigit : isDigit (w.byteAt m.state.mangledCur) = false) :
    parseNumber (w := w) true m = .ok (none, m) := by
  rw [← headD_rest] at hdigit
  obtain ⟨hzero, hscan⟩ := scanNumber_of_head hdigit kMaxPositive
  rw [parseNumber, saving_run, bind_ok (declines_parseOneCharToken 'n' _ hm hsign), saving_run]
  simp only [hzero, Bool.false_eq_true, if_false, Bool.not_true, hscan, bne_self_eq_false]
  rfl

/-! ### Names -/

variable (hm : m.state.mangledCur ≤ w.length)

include hm

theorem declines_parseTemplateParam (hT : w.byteAt m.state.mangledCur ≠ 'T'.toUInt8) :
    Declines (parseTemplateParam : Parser w Bool) m :=
  .or (.and (declines_parseTwoCharToken "T_" _ hm hT))
    (.attempt (.and (declines_parseOneCharToken 'T' _ hm hT)))

theorem declines_parseSubstitution (hS : w.byteAt m.state.mangledCur ≠ 'S'.toUInt8) :
    Declines (parseSubstitution : Parser w Bool) m :=
  .or (.and (declines_parseTwoCharToken "S_" _ hm hS))
    (.or (.attempt (.and (declines_parseOneCharToken 'S' _ hm hS)))
      (.attempt (.and (declines_parseOneCharToken 'S' _ hm hS))))

theorem declines_parseSourceName (hsign : w.byteAt m.state.mangledCur ≠ 'n'.toUInt8)
    (hdigit : isDigit (w.byteAt m.state.mangledCur) = false) :
    Declines (parseSourceName : Parser w Bool) m := by
  have hnumber := parseNumber_declines hm hsign hdigit
  have hnonneg : parseNonNegativeNumber (w := w) true m = .ok (none, m) :=
    bind_ok (k := fun number : Option ℤ => _) hnumber
  have hpositive : parsePositiveNumber (w := w) true m = .ok (none, m) :=
    bind_ok (k := fun number : Option ℤ => _) hnonneg
  exact .attempt (bind_ok (k := fun number : Option ℤ => _) hpositive)

theorem declines_parseLocalSourceName (hL : w.byteAt m.state.mangledCur ≠ 'L'.toUInt8) :
    Declines (parseLocalSourceName : Parser w Bool) m :=
  .attempt (.and (declines_parseOneCharToken 'L' _ hm hL))

theorem declines_parseAbiTags (hB : w.byteAt m.state.mangledCur ≠ 'B'.toUInt8) :
    Declines (parseAbiTags : Parser w Bool) m := by
  let muted : Machine State Store := ⟨{ m.state with append := false }, m.store⟩
  have hmuted : Declines (parseAbiTag : Parser w Bool) muted :=
    .and (declines_parseOneCharToken 'B' _ hm hB)
  have hbody : Fails (disableAppend <&&> oneOrMore parseAbiTag <&&>
      restoreAppend m.state.append : Parser w Bool) (fun m' => ⟨m.state, m'.store⟩ = m) m :=
    After.and_fails ⟨muted, rfl, Fails.and (Fails.and (hmuted.fails rfl))⟩
  exact declines_of_fails (Fails.attempt hbody)

theorem declines_atTwoChars (first : Char) (seconds : String)
    (hfirst : w.byteAt m.state.mangledCur ≠ first.toUInt8) :
    Declines (atTwoChars first seconds : Parser w Bool) m := by
  refine (bind_ok (peek_run 0 hm)).trans ?_
  rw [Nat.add_zero, if_neg fun hc => hfirst (beq_iff_eq.mp hc)]
  rfl

variable [Forward w]

/-- Every operator starts with a letter in lower case. -/
theorem declines_parseOperatorName (hlower : isLower (w.byteAt m.state.mangledCur) = false) :
    Declines (parseOperatorName : Parser w Bool) m := by
  have hne (c : Byte) (hc : isLower c = true) : w.byteAt m.state.mangledCur ≠ c := fun heq =>
    absurd ((heq ▸ hlower).symm.trans hc) Bool.false_ne_true
  have hfound : findOperator (w := w) m = .ok (none, m) := by
    rw [findOperator, bind_ok (peek_run 0 hm), Nat.add_zero, hlower]
    rfl
  have hlisted :
    Declines (acceptAbbrev findOperator (fun _ => 2) operatorTexts : Parser w Bool) m :=
    bind_ok hfound
  have hcast : Declines (saving fun copy => parseTwoCharToken "cv" <&&> maybeAppend "operator " <&&>
      enterNestedName <&&> Forward.parseType <&&> leaveNestedName copy.nestLevel :
        Parser w Bool) m :=
    Declines.and (declines_parseTwoCharToken "cv" _ hm (hne _ (by decide)))
  exact .test_and (atLeastNumCharsRemaining_run 2 m) <| .or (.attempt hcast) <|
    .or (.attempt (.and (declines_parseTwoCharToken "li" _ hm (hne _ (by decide))))) <|
      .or (.attempt (.and (declines_parseOneCharToken 'v' _ hm (hne _ (by decide))))) hlisted

theorem declines_parseCtorDtorName (hC : w.byteAt m.state.mangledCur ≠ 'C'.toUInt8)
    (hD : w.byteAt m.state.mangledCur ≠ 'D'.toUInt8) :
    Declines (parseCtorDtorName : Parser w Bool) m :=
  .or (.attempt (.and (declines_parseTwoCharToken "CI" _ hm hC))) <|
    .or (.attempt (.and (declines_parseOneCharToken 'C' _ hm hC)))
      (.attempt (.and (declines_parseOneCharToken 'D' _ hm hD)))

omit hm [Forward w] in
/-- A component of a nested name starts with one of these. -/
def startsComponent (c : Byte) : Bool :=
  isLower c || isDigit c || (bytes "TSCDUL").contains c

omit hm [Forward w] in
theorem ne_of_startsComponent {c d : Byte} (hc : startsComponent c = false)
    (hd : startsComponent d = true) : c ≠ d := fun heq =>
  absurd ((heq ▸ hc).symm.trans hd) Bool.false_ne_true

theorem declines_parseUnqualifiedName
    (hc : startsComponent (w.byteAt m.state.mangledCur) = false) :
    Declines (parseUnqualifiedName : Parser w Bool) m := by
  have hne (d : Byte) (hd : startsComponent d = true) : w.byteAt m.state.mangledCur ≠ d :=
    ne_of_startsComponent hc hd
  have hclasses := hc
  simp only [startsComponent, Bool.or_eq_false_iff] at hclasses
  exact .or (.attempt (.and (declines_parseOperatorName hm hclasses.1.1))) <|
    .or (.attempt (declines_parseCtorDtorName hm (hne _ (by decide)) (hne _ (by decide)))) <|
      .attempt <| .or (.and (declines_atTwoChars hm 'U' "lt" (hne _ (by decide)))) <|
        .or (.and (declines_atTwoChars hm 'D' "C" (hne _ (by decide)))) <|
          .or (.and (declines_parseSourceName hm (hne _ (by decide)) hclasses.1.2))
            (.and (declines_parseLocalSourceName hm (hne _ (by decide))))

theorem declines_parseUnscopedName (hc : startsComponent (w.byteAt m.state.mangledCur) = false) :
    Declines (parseUnscopedName : Parser w Bool) m :=
  .or (declines_parseUnqualifiedName hm hc) <| .attempt <|
    .and (declines_parseTwoCharToken "St" _ hm (ne_of_startsComponent hc (by decide)))

theorem declines_component (hc : startsComponent (w.byteAt m.state.mangledCur) = false) :
    Declines (parseTemplateParam <||> parseSubstitution <||> parseUnscopedName : Parser w Bool) m :=
  .or (declines_parseTemplateParam hm (ne_of_startsComponent hc (by decide))) <|
    .or (declines_parseSubstitution hm (ne_of_startsComponent hc (by decide)))
      (declines_parseUnscopedName hm hc)

end Demangle

end NgLog
