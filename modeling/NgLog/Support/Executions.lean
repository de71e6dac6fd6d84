import NgLog.Support.Restoration

/-!
# Single runs of a parser

What a parser does on one machine: that it succeeds there and then `P` holds, or that it fails there
and then `P` holds. The rules follow a run through the combinators, so that what a parser does on a
given input is put together from what its parts do.

## Main definitions

* `Parser.Fails` — `f` fails here and then something holds

## Main results

* `Parser.After.and`, `Parser.Fails.or`, `Parser.After.or`, … — one rule for each way through a
  combinator
* `Parser.After.zeroOrMore`, `Parser.Fails.zeroOrMore` — a loop, one round at a time
-/

namespace NgLog

namespace Backtracking

variable {ε σ ω α : Type}

namespace Parser

/-- `f` fails at `m`, and `P` holds of the machine it leaves. -/
def Fails (f : Parser ε σ ω Bool) (P : Machine σ ω → Prop) (m : Machine σ ω) : Prop :=
  ∃ m', f m = .ok (false, m') ∧ P m'

variable {f g : Parser ε σ ω Bool} {P Q : Machine σ ω → Prop} {m : Machine σ ω}

theorem After.mono (h : After f P m) (himp : ∀ m', P m' → Q m') : After f Q m :=
  let ⟨m', hf, hP⟩ := h
  ⟨m', hf, himp m' hP⟩

theorem Fails.mono (h : Fails f P m) (himp : ∀ m', P m' → Q m') : Fails f Q m :=
  let ⟨m', hf, hP⟩ := h
  ⟨m', hf, himp m' hP⟩

theorem Declines.fails (h : Declines f m) (hP : P m) : Fails f P m := ⟨m, h, hP⟩

theorem declines_of_fails (h : Fails f (· = m) m) : Declines f m := by
  obtain ⟨m', hf, rfl⟩ := h
  exact hf

/-! ### Sequences and alternatives -/

theorem After.and (h : After f (After g P) m) : After (f <&&> g) P m := by
  obtain ⟨m₁, hf, m', hg, hP⟩ := h
  exact ⟨m', and_eq_true_iff.mpr ⟨m₁, hf, hg⟩, hP⟩

/-- The first part is known to succeed. -/
theorem After.seq {m₁ : Machine σ ω} (hf : f m = .ok (true, m₁)) (hg : After g P m₁) :
    After (f <&&> g) P m := .and ⟨m₁, hf, hg⟩

theorem After.and_fails (h : After f (Fails g P) m) : Fails (f <&&> g) P m := by
  obtain ⟨m₁, hf, m', hg, hP⟩ := h
  exact ⟨m', and_eq_false_iff.mpr (.inr ⟨m₁, hf, hg⟩), hP⟩

theorem Fails.and (h : Fails f P m) : Fails (f <&&> g) P m :=
  let ⟨m', hf, hP⟩ := h
  ⟨m', and_eq_false_iff.mpr (.inl hf), hP⟩

theorem After.or (h : After f P m) : After (f <||> g) P m :=
  let ⟨m', hf, hP⟩ := h
  ⟨m', or_eq_true_iff.mpr (.inl hf), hP⟩

theorem Fails.or (h : Fails f (After g P) m) : After (f <||> g) P m := by
  obtain ⟨m₁, hf, m', hg, hP⟩ := h
  exact ⟨m', or_eq_true_iff.mpr (.inr ⟨m₁, hf, hg⟩), hP⟩

theorem Fails.or_fails (h : Fails f (Fails g P) m) : Fails (f <||> g) P m := by
  obtain ⟨m₁, hf, m', hg, hP⟩ := h
  refine ⟨m', ?_, hP⟩
  rw [or_apply, hf]
  exact hg

/-- An alternative that leaves no trace is passed over. -/
theorem Declines.or_after (hf : Declines f m) (hg : After g P m) : After (f <||> g) P m :=
  (hf.fails hg).or

/-! ### Saving and restoring -/

theorem After.attempt (h : After f P m) : After (attempt f) P m :=
  let ⟨m', hf, hP⟩ := h
  ⟨m', attempt_eq_true_iff.mpr hf, hP⟩

theorem Fails.attempt (h : Fails f (fun m' => P { m' with state := m.state }) m) :
    Fails (attempt f) P m := by
  obtain ⟨m', hf, hP⟩ := h
  refine ⟨{ m' with state := m.state }, ?_, hP⟩
  rw [Parser.attempt, hf]

theorem After.optional (h : After f P m) : After (optional f) P m := by
  obtain ⟨m', hf, hP⟩ := h
  refine ⟨m', ?_, hP⟩
  rw [Parser.optional, hf]

theorem Fails.optional (h : Fails f P m) : After (optional f) P m := by
  obtain ⟨m', hf, hP⟩ := h
  refine ⟨m', ?_, hP⟩
  rw [Parser.optional, hf]

theorem Declines.optional_apply (h : Declines f m) : Parser.optional f m = .ok (true, m) := by
  rw [Parser.optional, h]

theorem Declines.optional (h : Declines f m) (hP : P m) : After (Parser.optional f) P m :=
  ⟨m, h.optional_apply, hP⟩

/-- The first part returns a value. -/
theorem After.bind {f : Parser ε σ ω α} {k : α → Parser ε σ ω Bool} {a : α} {m₁ : Machine σ ω}
    (hf : f m = .ok (a, m₁)) (hk : After (k a) P m₁) : After (f >>= k) P m := by
  obtain ⟨m', hrun, hP⟩ := hk
  refine ⟨m', ?_, hP⟩
  rw [bind_apply, hf]
  exact hrun

theorem Fails.bind {f : Parser ε σ ω α} {k : α → Parser ε σ ω Bool} {a : α} {m₁ : Machine σ ω}
    (hf : f m = .ok (a, m₁)) (hk : Fails (k a) P m₁) : Fails (f >>= k) P m := by
  obtain ⟨m', hrun, hP⟩ := hk
  refine ⟨m', ?_, hP⟩
  rw [bind_apply, hf]
  exact hrun

/-! ### Loops -/

variable {exhausted : ε} {measure : Machine σ ω → ℕ}

/-- A loop that ends does not need the fuel that is left. -/
theorem repeatFuel_mono : ∀ {fuel fuel' : ℕ} {m : Machine σ ω} {r : Bool × Machine σ ω},
    fuel ≤ fuel' → repeatFuel exhausted f fuel m = .ok r → repeatFuel exhausted f fuel' m = .ok r
  | 0, _, _, _, _, h => by cases h
  | fuel + 1, 0, _, _, hle, _ => absurd hle (Nat.not_succ_le_zero fuel)
  | fuel + 1, fuel' + 1, m, r, hle, h => by
    rw [repeatFuel] at h ⊢
    rcases hf : f m with e | ⟨_ | _, m₁⟩
    · rw [hf] at h
      cases h
    · rw [hf] at h
      exact h
    · rw [hf] at h
      exact repeatFuel_mono (Nat.le_of_succ_le_succ hle) h

/-- Another round, which makes the measure less. -/
theorem After.zeroOrMore (h : After f (fun m₁ => measure m₁ < measure m ∧
    After (zeroOrMore exhausted measure f) P m₁) m) :
    After (zeroOrMore exhausted measure f) P m := by
  obtain ⟨m₁, hf, hlt, m', hrun, hP⟩ := h
  refine ⟨m', ?_, hP⟩
  rw [Parser.zeroOrMore, repeatFuel, hf]
  exact repeatFuel_mono hlt hrun

/-- The end of the loop. -/
theorem Fails.zeroOrMore (h : Fails f P m) : After (zeroOrMore exhausted measure f) P m := by
  obtain ⟨m', hf, hP⟩ := h
  refine ⟨m', ?_, hP⟩
  rw [Parser.zeroOrMore, repeatFuel, hf]

end Parser

end Backtracking

end NgLog
