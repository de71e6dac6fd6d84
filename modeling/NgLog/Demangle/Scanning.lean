import NgLog.Demangle.Grammar

/-!
# Scanning

A scan reads the mangled name, moves the cursor forward without leaving the name, and changes
nothing else. The tokens and the numbers of the grammar are scans, whatever the input: this is
where the arithmetic of the cursor is done, so that the rest of the proofs never looks at a byte.

## Main definitions

* `moved`, `Scans` — a cursor moved forward, and the functions that do only that
* `Accepts`, `Yields` — a scan that consumes input when it succeeds

## Main results

* `Scans.bind` — scans compose
* `accepts_parseOneCharToken`, `yields_parseNumber`, … — one per token and kind of number
-/

namespace NgLog

namespace Demangle

open Backtracking (Machine)

variable {w : CString} {α : Type}

/-! ### Scanning -/

/-- The machine with its cursor moved forward by `count`. -/
def moved (m : Machine State Store) (count : ℕ) : Machine State Store :=
  ⟨{ m.state with mangledCur := m.state.mangledCur + count }, m.store⟩

theorem moved_moved (m : Machine State Store) (i k : ℕ) :
    moved (moved m i) k = moved m (i + k) := by
  simp only [moved, Nat.add_assoc]

/-- `f` moves the cursor forward, within the mangled name, and changes nothing else; `post`
relates its result to the distance. -/
def Scans (f : Parser w α) (post : α → ℕ → Prop) : Prop :=
  ∀ m, m.state.mangledCur ≤ w.length →
    ∃ a k, f m = .ok (a, moved m k) ∧ m.state.mangledCur + k ≤ w.length ∧ post a k

/-- A scan that consumes input when it succeeds. -/
abbrev Accepts (f : Parser w Bool) : Prop := Scans f fun b k => b = true → 0 < k

/-- A scan that consumes input when it returns a value. -/
abbrev Yields (f : Parser w (Option α)) : Prop := Scans f fun a k => a.isSome → 0 < k

theorem Scans.mono {f : Parser w α} {post post' : α → ℕ → Prop} (h : Scans f post)
    (hpost : ∀ a k, post a k → post' a k) : Scans f post' := fun m hm =>
  let ⟨a, k, hf, hk, hp⟩ := h m hm
  ⟨a, k, hf, hk, hpost a k hp⟩

theorem scans_pure (a : α) : Scans (pure a : Parser w α) fun b k => b = a ∧ k = 0 :=
  fun _ hm => ⟨a, 0, rfl, hm, rfl, rfl⟩

theorem Scans.bind {β : Type} {f : Parser w α} {g : α → Parser w β}
    {post : α → ℕ → Prop} {post' : β → ℕ → Prop} (hf : Scans f post)
    (hg : ∀ a i, post a i → Scans (g a) fun b k => post' b (i + k)) : Scans (f >>= g) post' := by
  intro m hm
  obtain ⟨a, i, hfm, hi, hpa⟩ := hf m hm
  obtain ⟨b, k, hgm, hk, hpb⟩ := hg a i hpa (moved m i) hi
  refine ⟨b, i + k, ?_, ?_, hpb⟩
  · rw [bind_run, hfm, ← moved_moved]
    exact hgm
  · rw [← Nat.add_assoc]
    exact hk

theorem scans_peek : Scans (peek (w := w) 0) fun _ k => k = 0 := fun _ hm =>
  ⟨_, 0, if_pos hm, hm, rfl⟩

/-- What follows a byte before the terminator is in the name. -/
theorem lt_length_of_peek {m : Machine State Store} (h : w.byteAt m.state.mangledCur ≠ 0) :
    m.state.mangledCur + 1 ≤ w.length := CString.lt_of_byteAt_ne_zero h

theorem advance_run {m : Machine State Store} {count : ℕ}
    (h : m.state.mangledCur + count ≤ w.length) :
    advance (w := w) count m = .ok (true, moved m count) := if_pos h

theorem peek_run {m : Machine State Store} (offset : ℕ)
    (h : m.state.mangledCur + offset ≤ w.length) :
    peek (w := w) offset m = .ok (w.byteAt (m.state.mangledCur + offset), m) :=
  if_pos h

theorem length_rest {m : Machine State Store} :
    (rest w m.state).length = w.length - m.state.mangledCur := List.length_drop

theorem parseOneCharToken_run (c : Char) (h : c.toUInt8 ≠ 0) {m : Machine State Store}
    (hm : m.state.mangledCur ≤ w.length) :
    parseOneCharToken (w := w) c h m =
      if w.byteAt m.state.mangledCur = c.toUInt8 then .ok (true, moved m 1)
      else .ok (false, m) := by
  rw [parseOneCharToken, bind_run, peek_run 0 hm, Nat.add_zero]
  by_cases hc : w.byteAt m.state.mangledCur = c.toUInt8
  · have hlt := lt_length_of_peek (hc ▸ h : w.byteAt m.state.mangledCur ≠ 0)
    rw [if_pos hc]
    simp only [hc, beq_self_eq_true, if_true]
    exact advance_run hlt
  · rw [if_neg hc]
    simp only [beq_iff_eq, hc, if_false]
    rfl

theorem accepts_parseOneCharToken (c : Char) (h : c.toUInt8 ≠ 0) :
    Accepts (parseOneCharToken (w := w) c h) := by
  intro m hm
  rw [parseOneCharToken_run c h hm]
  split
  · rename_i hc
    have hlt := lt_length_of_peek (hc ▸ h : w.byteAt m.state.mangledCur ≠ 0)
    exact ⟨true, 1, rfl, hlt, fun _ => Nat.one_pos⟩
  · exact ⟨false, 0, rfl, hm, fun hb => absurd hb Bool.false_ne_true⟩

/-- What stands at the cursor is in the name. -/
theorem add_length_le_of_prefix {m : Machine State Store} {text : List Byte}
    (hm : m.state.mangledCur ≤ w.length) (h : text.isPrefixOf (rest w m.state) = true) :
    m.state.mangledCur + text.length ≤ w.length := by
  have hle := (List.isPrefixOf_iff_prefix.mp h).length_le
  rw [length_rest] at hle
  omega

theorem parseTwoCharToken_run (s : String) (h : (bytes s).length = 2) {m : Machine State Store}
    (hm : m.state.mangledCur ≤ w.length) :
    parseTwoCharToken (w := w) s h m =
      if (bytes s).isPrefixOf (rest w m.state) then .ok (true, moved m 2)
      else .ok (false, m) := by
  rw [parseTwoCharToken, bind_run, strPrefix]
  by_cases hp : (bytes s).isPrefixOf (rest w m.state) = true
  · rw [if_pos hp]
    simp only [hp, if_true]
    exact advance_run (h ▸ add_length_le_of_prefix hm hp)
  · rw [if_neg hp]
    simp only [hp]
    rfl

theorem accepts_parseTwoCharToken (s : String) (h : (bytes s).length = 2) :
    Accepts (parseTwoCharToken (w := w) s h) := by
  intro m hm
  rw [parseTwoCharToken_run s h hm]
  split
  · rename_i hp
    exact ⟨true, 2, rfl, h ▸ add_length_le_of_prefix hm hp, fun _ => Nat.two_pos⟩
  · exact ⟨false, 0, rfl, hm, fun hb => absurd hb Bool.false_ne_true⟩

theorem accepts_parseCharClass (s : String) : Accepts (parseCharClass (w := w) s) := by
  intro m hm
  rw [parseCharClass, bind_run, peek_run 0 hm, Nat.add_zero]
  dsimp only
  split
  · rename_i hc
    have hne : w.byteAt m.state.mangledCur ≠ 0 := by simpa using (Bool.and_eq_true_iff.mp hc).1
    exact ⟨true, 1, advance_run (lt_length_of_peek hne), lt_length_of_peek hne,
      fun _ => Nat.one_pos⟩
  · exact ⟨false, 0, rfl, hm, fun hb => absurd hb Bool.false_ne_true⟩

/-! ### Numbers -/

theorem length_takeWhile_rest_le {m : Machine State Store} (hm : m.state.mangledCur ≤ w.length)
    (p : Byte → Bool) :
    m.state.mangledCur + ((rest w m.state).takeWhile p).length ≤ w.length := by
  have hle := (List.takeWhile_prefix p (l := rest w m.state)).length_le
  rw [length_rest] at hle
  omega

theorem scanNumber_count {limit : ℕ} :
    ∀ {p : List Byte} {number count n c : ℕ},
      scanNumber limit p number count = some (n, c) → c ≤ count + p.length
  | [], _, _, _, _, h => by
    simp only [scanNumber, Option.some.injEq, Prod.mk.injEq] at h
    omega
  | b :: p, number, count, n, c, h => by
    rw [scanNumber] at h
    split at h
    · dsimp only at h
      split at h
      · cases h
      · have := scanNumber_count h
        simp only [List.length_cons]
        omega
    · simp only [Option.some.injEq, Prod.mk.injEq] at h
      omega

theorem yields_parseNumber (numberOut : Bool) :
    Yields (parseNumber (w := w) numberOut) := by
  intro m hm
  have hnone : ∃ a k, Except.ok (none, m) = (.ok (a, moved m k) :
      Except Fault (Option ℤ × Machine State Store)) ∧ m.state.mangledCur + k ≤ w.length ∧
      (a.isSome → 0 < k) := ⟨none, 0, rfl, hm, fun h => absurd h Bool.false_ne_true⟩
  obtain ⟨negative, i, hn, hi, -⟩ := accepts_parseOneCharToken 'n' (by decide) m hm
  rw [parseNumber, saving_run, bind_run, hn]
  dsimp only
  rw [saving_run]
  split
  · exact hnone
  split
  · split
    · rename_i hcount
      have hle := length_takeWhile_rest_le (m := moved m i) hi isDigit
      refine ⟨some 0, i + ((rest w (moved m i).state).takeWhile isDigit).length, ?_, ?_,
        fun _ => ?_⟩
      rotate_left
      · rw [← Nat.add_assoc]
        exact hle
      · have : ((rest w (moved m i).state).takeWhile isDigit).length ≠ 0 := by simpa using hcount
        exact Nat.add_pos_right i (Nat.pos_of_ne_zero this)
      · rw [bind_run, advance_run hle, ← moved_moved]
        rfl
    · exact hnone
  · generalize (if negative = true then kMaxNegative else kMaxPositive) = limit
    rcases hscan : scanNumber limit (rest w (moved m i).state) 0 0 with _ | ⟨number, count⟩
    · exact hnone
    · have hcount := scanNumber_count hscan
      dsimp only
      rw [length_rest, Nat.zero_add] at hcount
      split
      · rename_i hne
        have hle : (moved m i).state.mangledCur + count ≤ w.length := by
          simp only [moved] at hcount ⊢
          omega
        refine ⟨some (if negative then -(number : ℤ) else number), i + count, ?_, ?_, fun _ => ?_⟩
        rotate_left
        · rw [← Nat.add_assoc]
          exact hle
        · exact Nat.add_pos_right i (Nat.pos_of_ne_zero (by simpa using hne))
        · rw [bind_run, advance_run hle, ← moved_moved]
          rfl
      · exact ⟨none, i, rfl, hi, fun h => absurd h Bool.false_ne_true⟩

/-- Nothing is read where a number is not looked for. -/
theorem exists_none {m : Machine State Store} (hm : m.state.mangledCur ≤ w.length)
    {post : Option ℤ → ℕ → Prop} (hpost : post none 0) :
    ∃ a k, Except.ok (none, m) = (.ok (a, moved m k) :
      Except Fault (Option ℤ × Machine State Store)) ∧ m.state.mangledCur + k ≤ w.length ∧
      post a k := ⟨none, 0, rfl, hm, hpost⟩

theorem yields_lookahead {p : Byte → Bool} :
    Yields (do if p (← peek 0) then return none else parseNumber (w := w) false) := by
  intro m hm
  rw [bind_run, peek_run 0 hm]
  dsimp only
  split
  · exact exists_none hm fun h => absurd h Bool.false_ne_true
  · exact yields_parseNumber false m hm

/-- A number within a bound. -/
theorem scans_bounded {f : Parser w (Option ℤ)} (hf : Yields f) {p : ℤ → Prop} [DecidablePred p] :
    Scans (saving fun copy => do
      match ← f with
      | some number =>
        if p number then return some number
        let _ ← modify fun _ => copy
        return none
      | none =>
        let _ ← modify fun _ => copy
        return none : Parser w (Option ℤ))
      fun a k => (a.isSome → 0 < k) ∧ ∀ number ∈ a, p number := by
  intro m hm
  have hnothing : ((none : Option ℤ).isSome → 0 < 0) ∧ ∀ number ∈ (none : Option ℤ), p number :=
    ⟨fun h => absurd h Bool.false_ne_true, fun _ h => absurd h nofun⟩
  obtain ⟨a, k, hrun, hk, hpos⟩ := hf m hm
  rw [saving_run, bind_run, hrun]
  cases a with
  | none => exact exists_none hm hnothing
  | some number =>
    dsimp only
    split
    · rename_i hnumber
      exact ⟨some number, k, rfl, hk, hpos, fun v hv => Option.mem_some.mp hv ▸ hnumber⟩
    · exact exists_none hm hnothing

theorem yields_parseNonNegativeNumber (numberOut : Bool) :
    Yields (parseNonNegativeNumber (w := w) numberOut) := by
  cases numberOut with
  | false => exact yields_lookahead (p := fun c => c == 'n'.toUInt8)
  | true => exact (scans_bounded (yields_parseNumber true)).mono fun a k h => h.1

/-- A positive number consumes input and is positive. -/
theorem scans_parsePositiveNumber (numberOut : Bool) :
    Scans (parsePositiveNumber (w := w) numberOut)
      fun a k => (a.isSome → 0 < k) ∧ (numberOut = true → ∀ number ∈ a, 0 < number) := by
  cases numberOut with
  | false =>
    have hyields : Yields (parsePositiveNumber (w := w) false) :=
      yields_lookahead (p := fun c => c == '0'.toUInt8 || c == 'n'.toUInt8)
    exact hyields.mono fun a k h => ⟨h, fun hout => absurd hout Bool.false_ne_true⟩
  | true =>
    have hbounded := scans_bounded (yields_parseNonNegativeNumber (w := w) true)
      (p := fun number => number > 0)
    exact hbounded.mono fun a k h => ⟨h.1, fun _ => h.2⟩

theorem accepts_succeeds {f : Parser w (Option α)} (h : Yields f) : Accepts (succeeds f) :=
  h.bind fun a i ha => (scans_pure a.isSome).mono fun b k hb => by
    obtain ⟨rfl, rfl⟩ := hb
    exact ha

theorem accepts_skipNonNegativeNumber : Accepts (skipNonNegativeNumber (w := w)) :=
  accepts_succeeds (yields_parseNonNegativeNumber false)

theorem accepts_parseNumberSuch (cond : ℤ → Bool) :
    Accepts (parseNumberSuch (w := w) cond) :=
  (yields_parseNonNegativeNumber true).bind fun a i ha => by
    cases a with
    | none => exact (scans_pure false).mono fun b k hb h => absurd (hb.1 ▸ h) Bool.false_ne_true
    | some number => exact (scans_pure _).mono fun b k _ _ => Nat.add_pos_left (ha rfl) k

theorem accepts_parseFloatNumber : Accepts (parseFloatNumber (w := w)) := by
  intro m hm
  rw [parseFloatNumber, saving_run]
  have hle := length_takeWhile_rest_le hm fun c =>
    isDigit c || ('a'.toUInt8 ≤ c && c ≤ 'f'.toUInt8)
  dsimp only
  split
  · rename_i hne
    exact ⟨true, _, advance_run hle, hle, fun _ => Nat.pos_of_ne_zero (by simpa using hne)⟩
  · exact ⟨false, 0, rfl, hm, fun h => absurd h Bool.false_ne_true⟩

theorem accepts_parseSeqId : Accepts (parseSeqId (w := w)) := by
  intro m hm
  rw [parseSeqId, saving_run, bind_run, peek_run 0 hm]
  have hle := length_takeWhile_rest_le hm fun c =>
    isDigit c || ('A'.toUInt8 ≤ c && c ≤ 'Z'.toUInt8)
  dsimp only
  split
  · rename_i hne
    refine ⟨true, _, advance_run hle, hle, fun _ => Nat.pos_of_ne_zero ?_⟩
    simpa using (Bool.and_eq_true_iff.mp hne).1
  · exact ⟨false, 0, rfl, hm, fun h => absurd h Bool.false_ne_true⟩

theorem accepts_parseCVQualifiers : Accepts (parseCVQualifiers (w := w)) :=
  (accepts_parseOneCharToken 'r' (by decide)).bind fun r i hr =>
  (accepts_parseOneCharToken 'V' (by decide)).bind fun v j hv =>
  (accepts_parseOneCharToken 'K' (by decide)).bind fun k l hk => (scans_pure _).mono
    fun b t hb h => by
      obtain ⟨rfl, rfl⟩ := hb
      simp only [Bool.or_eq_true] at h
      rcases h with (h | h) | h
      · have := hr h
        omega
      · have := hv h
        omega
      · have := hk h
        omega

/-! ### Looking ahead -/

/-- A test that leaves the machine alone. -/
theorem accepts_saving_pure (p : State → Bool) :
    Scans (saving fun state => (pure (p state) : Parser w Bool)) fun _ k => k = 0 :=
  fun m hm => ⟨p m.state, 0, rfl, hm, rfl⟩

/-- The test of `parseUntil`. -/
theorem scans_stop (stops : List Byte) :
    Scans (do return stops.contains (← peek 0) : Parser w Bool) fun _ k => k = 0 :=
  scans_peek.bind fun c i hi => (scans_pure (stops.contains c)).mono fun _ _ h => by
    rw [hi, h.2]

theorem scans_atTwoChars (first : Char) (seconds : String) (h : first.toUInt8 ≠ 0) :
    Scans (atTwoChars (w := w) first seconds) fun _ k => k = 0 := by
  intro m hm
  rw [atTwoChars, bind_run, peek_run 0 hm, Nat.add_zero]
  dsimp only
  split
  · rename_i hc
    have hne : w.byteAt m.state.mangledCur ≠ 0 := (beq_iff_eq.mp hc).symm ▸ h
    rw [bind_run, peek_run 1 (lt_length_of_peek hne)]
    exact ⟨_, 0, rfl, hm, rfl⟩
  · exact ⟨false, 0, rfl, hm, rfl⟩

theorem scans_atCloneSuffix : Scans (atCloneSuffix (w := w)) fun _ k => k = 0 := by
  intro m hm
  rw [atCloneSuffix, bind_run, peek_run 0 hm, Nat.add_zero]
  dsimp only
  split
  · rename_i hc
    have hne : w.byteAt m.state.mangledCur ≠ 0 := by
      rw [beq_iff_eq.mp hc]
      decide
    rw [bind_run, peek_run 1 (lt_length_of_peek hne)]
    exact ⟨_, 0, rfl, hm, rfl⟩
  · exact ⟨false, 0, rfl, hm, rfl⟩

theorem scans_parseRefQualifier : Scans (parseRefQualifier (w := w)) fun _ _ => True := by
  intro m hm
  rw [parseRefQualifier, bind_run, peek_run 0 hm, Nat.add_zero]
  dsimp only
  split
  · rename_i hc
    have hne : w.byteAt m.state.mangledCur ≠ 0 := by
      intro hz
      rw [hz] at hc
      exact absurd hc (by decide)
    rw [bind_run, advance_run (lt_length_of_peek hne)]
    exact ⟨_, 1, rfl, lt_length_of_peek hne, trivial⟩
  · exact ⟨0, 0, rfl, hm, trivial⟩

/-- `found` leaves the machine alone; what it finds covers `length` bytes at the cursor, not
none, and its texts are free of NUL. -/
def Finds (found : Parser w (Option α)) (length : α → ℕ) (texts : α → List String) : Prop :=
  ∀ m, m.state.mangledCur ≤ w.length → ∃ a, found m = .ok (a, m) ∧ ∀ p ∈ a,
    0 < length p ∧ m.state.mangledCur + length p ≤ w.length ∧ ∀ t ∈ texts p, 0 ∉ bytes t

theorem finds_findSubstitution :
    Finds (findSubstitution (w := w)) (fun _ => 1) substitutionTexts := by
  intro m hm
  refine ⟨_, by rw [findSubstitution, bind_run, peek_run 0 hm]; rfl, fun p hp => ?_⟩
  have hmem := List.mem_of_find?_eq_some hp
  have hbyte := List.find?_some (p := fun p : AbbrevPair =>
    (bytes p.abbreviation).getD 1 0 == w.byteAt (m.state.mangledCur + 0)) hp
  have htable : ∀ p ∈ kSubstitutionList,
      (bytes p.abbreviation).getD 1 0 ≠ 0 ∧ ∀ t ∈ substitutionTexts p, 0 ∉ bytes t := by decide
  rw [Nat.add_zero, beq_iff_eq] at hbyte
  exact ⟨Nat.one_pos, lt_length_of_peek (hbyte ▸ (htable p hmem).1), (htable p hmem).2⟩

theorem isAlpha_ne_zero {c : Byte} (h : isAlpha c = true) : c ≠ 0 := by
  rintro rfl
  exact absurd h (by decide)

theorem isLower_ne_zero {c : Byte} (h : isLower c = true) : c ≠ 0 := by
  rintro rfl
  exact absurd h (by decide)

theorem finds_findOperator :
    Finds (findOperator (w := w)) (fun _ => 2) operatorTexts := by
  intro m hm
  rw [findOperator, bind_run, peek_run 0 hm, Nat.add_zero]
  dsimp only
  split
  · exact ⟨none, rfl, nofun⟩
  · rename_i hlower
    have hfirst := lt_length_of_peek (isLower_ne_zero (by simpa using hlower))
    rw [bind_run, peek_run 1 hfirst]
    dsimp only
    split
    · exact ⟨none, rfl, nofun⟩
    · rename_i halpha
      have hsecond := CString.lt_of_byteAt_ne_zero (isAlpha_ne_zero (by simpa using halpha))
      refine ⟨_, rfl, fun p hp => ⟨Nat.two_pos, hsecond, ?_⟩⟩
      have htable : ∀ p ∈ kOperatorList, ∀ t ∈ operatorTexts p, 0 ∉ bytes t := by decide
      exact htable p (List.mem_of_find?_eq_some hp)

theorem length_bytes (s : String) : (bytes s).length = s.length := by
  rw [bytes, List.length_map, String.length_toList]

theorem finds_findBuiltinType :
    Finds (findBuiltinType (w := w)) (fun p => p.abbreviation.length)
      (fun p => [p.realName]) := by
  intro m hm
  refine ⟨_, rfl, fun p hp => ?_⟩
  have htable : ∀ p ∈ kBuiltinTypeList,
      0 < (bytes p.abbreviation).length ∧ ∀ t ∈ [p.realName], 0 ∉ bytes t := by decide
  have hp' := htable p (List.mem_of_find?_eq_some hp)
  have hprefix := List.find?_some (p := fun p : AbbrevPair =>
    (bytes p.abbreviation).isPrefixOf (rest w m.state)) hp
  have hle := add_length_le_of_prefix hm hprefix
  rw [length_bytes] at hp' hle
  exact ⟨hp'.1, hle, hp'.2⟩

end Demangle

end NgLog
