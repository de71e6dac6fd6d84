import Mathlib.Tactic.Common

/-!
# Programs that may stop

A program takes a state to a state and a result, or stops in a state without a result, for example
since it still waits for something. A loop runs its body until that leaves it. It gets as many
rounds as the size of the state allows; if every round makes the state smaller, that is no limit.

A triple says of a program what holds when it returns, and what holds when it stops.

## Main definitions

* `Program`, `exec` — programs, and what they do
* `loop` — a loop with a variable
* `Triple` — preconditions and postconditions
* `Decreases` — a program makes the state smaller

## Main results

* `Triple.bind`, `Triple.loop` — the rules
* `loop_eq` — a loop is its body, and then the loop again
-/

namespace NgLog

namespace Programs

/-- A program with state `σ`. -/
abbrev Program (σ α : Type) : Type := OptionT (StateM σ) α

variable {σ α β γ : Type} {x : Program σ α} {f : α → Program σ β} {P P' E : σ → Prop}
  {Q Q' : α → σ → Prop} {R : β → σ → Prop} {s s' : σ}

/-- The result, if there is one, and the last state. -/
def exec (x : Program σ α) (s : σ) : Option α × σ := (x.run.run s).run

theorem exec_modifyGet (g : σ → α × σ) (s : σ) :
    exec (modifyGet g : Program σ α) s = (some (g s).1, (g s).2) := rfl

theorem exec_bind (x : Program σ α) (f : α → Program σ β) (s : σ) :
    exec (x >>= f) s = (exec x s).1.elim (none, (exec x s).2) fun a => exec (f a) (exec x s).2 := by
  simp only [exec, OptionT.run_bind, StateT.run_bind, Id.run_bind, Option.elimM]
  cases (x.run.run s).run.1 <;> simp

theorem exec_bind_some {a : α} {f : α → Program σ β} (h : exec x s = (some a, s')) :
    exec (x >>= f) s = exec (f a) s' := by
  rw [exec_bind, h]
  rfl

theorem exec_bind_none {f : α → Program σ β} (h : exec x s = (none, s')) :
    exec (x >>= f) s = (none, s') := by
  rw [exec_bind, h]
  rfl

/-- A program that returns has passed through a state between its parts. -/
theorem exec_bind_eq_some {f : α → Program σ β} {b : β} :
    exec (x >>= f) s = (some b, s') ↔
      ∃ a s₁, exec x s = (some a, s₁) ∧ exec (f a) s₁ = (some b, s') := by
  rcases hx : exec x s with ⟨_ | a, s₁⟩
  · rw [exec_bind_none hx]
    constructor
    · rintro ⟨⟩
    · rintro ⟨a, s₂, ⟨⟩, -⟩
  · rw [exec_bind_some hx]
    constructor
    · exact fun h => ⟨a, s₁, rfl, h⟩
    · rintro ⟨_, _, ⟨⟩, h⟩
      exact h

theorem Program.ext {x y : Program σ α} (h : ∀ s, exec x s = exec y s) : x = y := funext h

/-! ### Programs that make the state smaller -/

/-- When the program returns, the state is smaller by `d`. -/
def Decreases (size : σ → ℕ) (d : ℕ) (x : Program σ α) : Prop :=
  ∀ s a s', exec x s = (some a, s') → size s' + d ≤ size s

section Decreases

variable {size : σ → ℕ} {d e : ℕ}

theorem decreases_pure (a : α) : Decreases size 0 (pure a : Program σ α) := by
  rintro s _ _ ⟨⟩
  exact Nat.le_refl _

theorem decreases_failure : Decreases size d (failure : Program σ α) := by
  rintro s a s' ⟨⟩

theorem decreases_modifyGet {g : σ → α × σ} (h : ∀ s, size (g s).2 ≤ size s) :
    Decreases size 0 (modifyGet g : Program σ α) := by
  rintro s _ _ ⟨⟩
  exact h s

theorem Decreases.mono (h : Decreases size d x) (hd : e ≤ d) : Decreases size e x :=
  fun s a s' hs => Nat.le_trans (Nat.add_le_add_left hd _) (h s a s' hs)

theorem Decreases.bind {f : α → Program σ β} (hx : Decreases size d x)
    (hf : ∀ a, Decreases size e (f a)) : Decreases size (d + e) (x >>= f) := by
  intro s b s' hs
  obtain ⟨a, s₁, hx₁, hf₁⟩ := exec_bind_eq_some.mp hs
  have := hx s a s₁ hx₁
  have := hf a s₁ b s' hf₁
  omega

end Decreases

/-! ### Loops -/

/-- At most `n` rounds of a loop with a variable, which goes on with a new value, or returns. -/
def iterate (body : γ → Program σ (γ ⊕ α)) : ℕ → γ → Program σ α
  | 0, _ => failure
  | n + 1, c => body c >>= Sum.elim (iterate body n) pure

/-- The loop, with more rounds than the size of the state. -/
def loop (size : σ → ℕ) (body : γ → Program σ (γ ⊕ α)) (c : γ) : Program σ α := do
  iterate body (size (← get) + 1) c

section Loops

variable {size : σ → ℕ} {d : ℕ} {body : γ → Program σ (γ ⊕ α)}

theorem exec_loop (c : γ) (s : σ) :
    exec (loop size body c) s = exec (iterate body (size s + 1) c) s := rfl

theorem exec_iterate_succ (n : ℕ) (c : γ) (s : σ) :
    exec (iterate body (n + 1) c) s = exec (body c >>= Sum.elim (iterate body n) pure) s := rfl

/-- More rounds than the size of the state make no difference. -/
theorem iterate_eq (h : ∀ c, Decreases size 1 (body c)) {n m : ℕ} {c : γ} {s : σ}
    (hn : size s < n) (hm : size s < m) :
    exec (iterate body n c) s = exec (iterate body m c) s := by
  induction n generalizing m c s with
  | zero => exact absurd hn (Nat.not_lt_zero _)
  | succ n ih =>
    obtain ⟨m, rfl⟩ : ∃ k, m = k + 1 := ⟨m - 1, by omega⟩
    rw [exec_iterate_succ, exec_iterate_succ]
    rcases hbody : exec (body c) s with ⟨_ | c' | a, s'⟩
    · rw [exec_bind_none hbody, exec_bind_none hbody]
    · have hsize := h c s _ s' hbody
      rw [exec_bind_some hbody, exec_bind_some hbody]
      exact ih (by omega) (by omega)
    · rw [exec_bind_some hbody, exec_bind_some hbody]
      rfl

/-- A loop runs its body, and then itself unless that has left it. -/
theorem loop_eq (h : ∀ c, Decreases size 1 (body c)) (c : γ) :
    loop size body c = body c >>= Sum.elim (loop size body) pure := by
  refine Program.ext fun s => ?_
  rw [exec_loop, exec_iterate_succ]
  rcases hbody : exec (body c) s with ⟨_ | c' | a, s'⟩
  · rw [exec_bind_none hbody, exec_bind_none hbody]
  · have hsize := h c s _ s' hbody
    rw [exec_bind_some hbody, exec_bind_some hbody]
    change _ = exec (iterate body (size s' + 1) c') s'
    exact iterate_eq h (by omega) (by omega)
  · rw [exec_bind_some hbody, exec_bind_some hbody]
    rfl

theorem Decreases.iterate (h : ∀ c, Decreases size d (body c)) (n : ℕ) (c : γ) :
    Decreases size d (iterate body n c) := by
  induction n generalizing c with
  | zero => exact decreases_failure
  | succ n ih =>
    refine ((h c).bind (e := 0) fun r => ?_).mono (Nat.le_add_right d 0)
    rcases r with c' | a
    · exact (ih c').mono (Nat.zero_le d)
    · exact decreases_pure a

theorem Decreases.loop (h : ∀ c, Decreases size d (body c)) (c : γ) :
    Decreases size d (loop size body c) :=
  fun s a s' hs => Decreases.iterate h _ c s a s' hs

end Loops

/-! ### Triples -/

/-- From a state in which `P` holds, the program returns with `Q`, or stops with `E`. -/
def Triple (P : σ → Prop) (x : Program σ α) (Q : α → σ → Prop) (E : σ → Prop) : Prop :=
  ∀ s, P s → (∀ a s', exec x s = (some a, s') → Q a s') ∧ ∀ s', exec x s = (none, s') → E s'

namespace Triple

theorem pure {a : α} (h : ∀ s, P s → Q a s) : Triple P (pure a) Q E := by
  refine fun s hs => ⟨?_, ?_⟩
  · rintro _ _ ⟨⟩
    exact h s hs
  · rintro _ ⟨⟩

theorem failure (h : ∀ s, P s → E s) : Triple P (failure : Program σ α) Q E := by
  refine fun s hs => ⟨?_, ?_⟩
  · rintro _ _ ⟨⟩
  · rintro _ ⟨⟩
    exact h s hs

theorem get {Q : σ → σ → Prop} (h : ∀ s, P s → Q s s) : Triple P (get : Program σ σ) Q E := by
  refine fun s hs => ⟨?_, ?_⟩
  · rintro _ _ ⟨⟩
    exact h s hs
  · rintro _ ⟨⟩

theorem modifyGet {g : σ → α × σ} (h : ∀ s, P s → Q (g s).1 (g s).2) :
    Triple P (modifyGet g : Program σ α) Q E := by
  refine fun s hs => ⟨?_, ?_⟩
  · rintro _ _ ⟨⟩
    exact h s hs
  · rintro _ ⟨⟩

theorem modify {g : σ → σ} {Q : PUnit → σ → Prop} (h : ∀ s, P s → Q ⟨⟩ (g s)) :
    Triple P (modify g : Program σ PUnit) Q E := by
  refine fun s hs => ⟨?_, ?_⟩
  · rintro _ _ ⟨⟩
    exact h s hs
  · rintro _ ⟨⟩

/-- The postcondition of a program is the precondition of what comes next. -/
theorem bind {f : α → Program σ β} {R : β → σ → Prop} (hx : Triple P x Q E)
    (hf : ∀ a, Triple (Q a) (f a) R E) : Triple P (x >>= f) R E := by
  intro s hs
  obtain ⟨hsome, hnone⟩ := hx s hs
  rcases hexec : exec x s with ⟨_ | a, s₁⟩
  · rw [exec_bind_none hexec]
    refine ⟨?_, ?_⟩
    · rintro _ _ ⟨⟩
    · rintro _ ⟨⟩
      exact hnone s₁ hexec
  · rw [exec_bind_some hexec]
    exact hf a s₁ (hsome a s₁ hexec)

theorem mono (h : Triple P x Q E) (hP : ∀ s, P' s → P s) (hQ : ∀ a s, Q a s → Q' a s) :
    Triple P' x Q' E := fun s hs =>
  ⟨fun a s' hexec => hQ a s' ((h s (hP s hs)).1 a s' hexec), (h s (hP s hs)).2⟩

theorem weaken (h : Triple P x Q E) (hQ : ∀ a s, Q a s → Q' a s) : Triple P x Q' E :=
  h.mono (fun _ hs => hs) hQ

/-- A precondition that contradicts itself. -/
theorem of_false (h : ∀ s, ¬P s) : Triple P x Q E := fun s hs => absurd hs (h s)

/-- A fact that does not depend on the state. -/
theorem of_fact {p : Prop} (h : p → Triple P x Q E) : Triple (fun s => p ∧ P s) x Q E :=
  fun s hs => h hs.1 s hs.2

section Loops

variable {I : γ → σ → Prop} {body : γ → Program σ (γ ⊕ α)}

theorem iterate (hE : ∀ c s, I c s → E s)
    (hbody : ∀ c, Triple (I c) (body c) (fun r => Sum.elim I Q r) E) (n : ℕ) (c : γ) :
    Triple (I c) (iterate body n c) Q E := by
  induction n generalizing c with
  | zero => exact failure (hE c)
  | succ n ih =>
    refine (hbody c).bind fun r => ?_
    rcases r with c' | a
    · exact ih c'
    · exact pure fun s hs => hs

/-- What every round that goes on preserves. -/
theorem loop {size : σ → ℕ} (hE : ∀ c s, I c s → E s)
    (hbody : ∀ c, Triple (I c) (body c) (fun r => Sum.elim I Q r) E) (c : γ) :
    Triple (I c) (loop size body c) Q E :=
  fun s hs => iterate hE hbody (size s + 1) c s hs

end Loops

end Triple

end Programs

end NgLog
