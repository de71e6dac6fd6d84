import Mathlib.Tactic.Common

/-!
# Runs of a transition function

A system is given by a step function `σ → α → Option σ`: `step s a` is the state after action `a`,
or nothing when `a` cannot be taken in `s`. A run is a list of actions; a property of all
interleavings of several parties is a property of all runs whose actions name their party.

## Main definitions

* `run` — the state after a list of actions
* `Along` — a condition on every step of a run

## Main results

* `run_append`, `run_append_eq_some` — runs compose
* `run_invariant` — what every step preserves, every run preserves
* `along_invariant`, `along_congr` — invariants of the runs whose steps meet a condition
* `run_history`, `along_history` — the same for a property of the state and of the actions that led
  to it
* `along_post_iff` — a property of all states that a run reaches, as a condition on its steps
* `rank_add_length_le` — a run whose steps all lower a rank
* `run_enabled`, `along_of_run` — conditions under which the actions of a run can be taken
-/

namespace NgLog

namespace Transition

variable {σ α : Type*} {step : σ → α → Option σ}

/-- The state after the actions, if each of them can be taken. -/
def run (step : σ → α → Option σ) : σ → List α → Option σ
  | s, [] => some s
  | s, a :: as => (step s a).bind fun s' => run step s' as

theorem run_cons_eq_some {s s'' : σ} {a : α} {as : List α} :
    run step s (a :: as) = some s'' ↔ ∃ s', step s a = some s' ∧ run step s' as = some s'' :=
  Option.bind_eq_some_iff

theorem run_append (s : σ) (as bs : List α) :
    run step s (as ++ bs) = (run step s as).bind fun s' => run step s' bs := by
  induction as generalizing s with
  | nil => rfl
  | cons a as ih =>
    simp only [List.cons_append, run, Option.bind_assoc]
    exact congrArg _ (funext ih)

theorem run_append_eq_some {s s'' : σ} {as bs : List α} :
    run step s (as ++ bs) = some s'' ↔ ∃ s', run step s as = some s' ∧
    run step s' bs = some s'' := by
  rw [run_append]
  exact Option.bind_eq_some_iff

theorem run_singleton {s : σ} {a : α} : run step s [a] = step s a := by
  cases h : step s a <;> simp only [run, h, Option.bind_some, Option.bind_none]

theorem run_concat_eq_some {s s'' : σ} {as : List α} {a : α} :
    run step s (as ++ [a]) = some s'' ↔ ∃ s', run step s as = some s' ∧ step s' a = some s'' := by
  simp only [run_append_eq_some, run_singleton]

/-- A property that every step with an action of `P` preserves holds after every run of them. -/
theorem run_invariant {I : σ → Prop} {P : α → Prop}
    (hstep : ∀ s a s', P a → I s → step s a = some s' → I s') :
    ∀ {as : List α} {s s' : σ}, (∀ a ∈ as, P a) → I s → run step s as = some s' → I s'
  | [], _, _, _, hs, h => Option.some.inj h ▸ hs
  | a :: as, s, s', hP, hs, h => by
    obtain ⟨s₁, h₁, h₂⟩ := run_cons_eq_some.mp h
    have hs₁ := hstep s a s₁ (hP a (List.mem_cons_self ..)) hs h₁
    exact run_invariant hstep (fun b hb => hP b (List.mem_cons_of_mem _ hb)) hs₁ h₂

/-- An invariant of all steps holds after every run. -/
theorem run_invariant_all {I : σ → Prop} (hstep : ∀ s a s', I s → step s a = some s' → I s')
    {as : List α} {s s' : σ} (hs : I s) (h : run step s as = some s') : I s' :=
  run_invariant (P := fun _ => True) (fun s a s' _ => hstep s a s') (fun _ _ => trivial) hs h

/-! ### Conditions on the steps of a run -/

/-- `P` holds of each action of the run and of the state in which it is taken. -/
def Along (step : σ → α → Option σ) (P : σ → α → Prop) (s : σ) (as : List α) : Prop :=
  ∀ pre a post, as = pre ++ a :: post → ∀ s', run step s pre = some s' → P s' a

theorem along_nil (P : σ → α → Prop) (s : σ) : Along step P s [] := fun pre a post h =>
  absurd h (List.append_ne_nil_of_right_ne_nil pre (List.cons_ne_nil a post)).symm

theorem along_cons {P : σ → α → Prop} {s : σ} {a : α} {as : List α} :
    Along step P s (a :: as) ↔ P s a ∧ ∀ s', step s a = some s' → Along step P s' as := by
  constructor
  · intro h
    refine ⟨h [] a as rfl s rfl, fun s' hs' pre b post has s'' hs'' => ?_⟩
    exact h (a :: pre) b post (congrArg (a :: ·) has) s'' (run_cons_eq_some.mpr ⟨s', hs', hs''⟩)
  · rintro ⟨ha, htail⟩ pre b post has s'' hs''
    cases pre with
    | nil =>
      obtain ⟨rfl, rfl⟩ := List.cons.inj has
      exact Option.some.inj hs'' ▸ ha
    | cons c pre =>
      obtain ⟨rfl, htl⟩ := List.cons.inj has
      obtain ⟨s', hs', hs₁⟩ := run_cons_eq_some.mp hs''
      exact htail s' hs' pre b post htl s'' hs₁

/-- A step whose outcome is known. -/
theorem along_step {P : σ → α → Prop} {s s' : σ} {a : α} {as : List α} (ha : P s a)
    (hstep : step s a = some s') (has : Along step P s' as) : Along step P s (a :: as) :=
  along_cons.mpr ⟨ha, fun _ h => Option.some.inj (hstep.symm.trans h) ▸ has⟩

/-- A run whose steps meet `P` keeps what every step that meets `P` preserves. -/
theorem along_invariant {I : σ → Prop} {P : σ → α → Prop}
    (hstep : ∀ s a s', P s a → I s → step s a = some s' → I s') :
    ∀ {as : List α} {s s' : σ}, Along step P s as → I s → run step s as = some s' → I s'
  | [], _, _, _, hs, h => Option.some.inj h ▸ hs
  | _ :: _, s, _, hP, hs, h => by
    obtain ⟨s₁, h₁, h₂⟩ := run_cons_eq_some.mp h
    obtain ⟨ha, htail⟩ := along_cons.mp hP
    exact along_invariant hstep (htail s₁ h₁) (hstep s _ s₁ ha hs h₁) h₂

/-- A property of the history and the state that every step that meets `P` extends holds after every
run along `P`. -/
theorem along_history {H : List α → σ → Prop} {P : σ → α → Prop}
    (hstep : ∀ p s a s', P s a → H p s → step s a = some s' → H (p ++ [a]) s') :
    ∀ {as p : List α} {s s' : σ}, Along step P s as → H p s → run step s as = some s' →
      H (p ++ as) s'
  | [], p, s, s', _, hs, h => by
    rw [List.append_nil]
    exact Option.some.inj h ▸ hs
  | a :: as, p, s, s', hP, hs, h => by
    obtain ⟨s₁, h₁, h₂⟩ := run_cons_eq_some.mp h
    obtain ⟨ha, htail⟩ := along_cons.mp hP
    have := along_history hstep (htail s₁ h₁) (hstep p s a s₁ ha hs h₁) h₂
    rwa [List.append_assoc] at this

/-- A property of the history and the state that every step extends holds after every run. -/
theorem run_history {H : List α → σ → Prop}
    (hstep : ∀ p s a s', H p s → step s a = some s' → H (p ++ [a]) s')
    {as p : List α} {s s' : σ} (hs : H p s) (h : run step s as = some s') : H (p ++ as) s' :=
  along_history (P := fun _ _ => True) (fun p s a s' _ => hstep p s a s')
    (fun _ _ _ _ _ _ => trivial) hs h

/-- If in the invariant every step that meets `P` lowers the rank, a run along `P` is no longer than
the rank allows. -/
theorem rank_add_length_le {I : σ → Prop} {P : σ → α → Prop} {rank : σ → ℕ}
    (hstep : ∀ s a s', P s a → I s → step s a = some s' → I s' ∧ rank s' < rank s) :
    ∀ {as : List α} {s s' : σ}, Along step P s as → I s → run step s as = some s' →
      rank s' + as.length ≤ rank s
  | [], s, _, _, _, h => Option.some.inj h ▸ Nat.le_refl (rank s)
  | _ :: _, s, _, hP, hs, h => by
    obtain ⟨s₁, h₁, h₂⟩ := run_cons_eq_some.mp h
    obtain ⟨ha, htail⟩ := along_cons.mp hP
    obtain ⟨hs₁, hlt⟩ := hstep s _ s₁ ha hs h₁
    have hle := rank_add_length_le hstep (htail s₁ h₁) hs₁ h₂
    rw [List.length_cons]
    omega

/-- In an invariant in which every action that meets `P` can be taken, a run along `P` can be
made. -/
theorem run_enabled {I : σ → Prop} {P : σ → α → Prop}
    (hstep : ∀ s a, P s a → I s → ∃ s', step s a = some s' ∧ I s') :
    ∀ {as : List α} {s : σ}, Along step P s as → I s → ∃ s', run step s as = some s' ∧ I s'
  | [], s, _, hs => ⟨s, rfl, hs⟩
  | a :: _, s, hP, hs => by
    obtain ⟨ha, htail⟩ := along_cons.mp hP
    obtain ⟨s₁, h₁, hs₁⟩ := hstep s a ha hs
    obtain ⟨s', h', hs'⟩ := run_enabled hstep (htail s₁ h₁) hs₁
    exact ⟨s', run_cons_eq_some.mpr ⟨s₁, h₁, h'⟩, hs'⟩

/-- In an invariant in which only actions that meet `P` can be taken, every run is along `P`. -/
theorem along_of_run {I : σ → Prop} {P : σ → α → Prop}
    (hstep : ∀ s a s', I s → step s a = some s' → P s a ∧ I s') :
    ∀ {as : List α} {s s' : σ}, I s → run step s as = some s' → Along step P s as
  | [], s, _, _, _ => along_nil P s
  | a :: as, s, s', hs, h => by
    obtain ⟨s₁, h₁, h₂⟩ := run_cons_eq_some.mp h
    obtain ⟨ha, hs₁⟩ := hstep s a s₁ hs h₁
    refine along_cons.mpr ⟨ha, fun s₂ h₂' => ?_⟩
    obtain rfl : s₁ = s₂ := Option.some.inj (h₁.symm.trans h₂')
    exact along_of_run hstep hs₁ h₂

/-- If in the invariant `P` and `Q` say the same of a step, and a step that meets them keeps the
invariant, then they say the same of every run. -/
theorem along_congr {I : σ → Prop} {P Q : σ → α → Prop} (hiff : ∀ s a, I s → (P s a ↔ Q s a))
    (hstep : ∀ s a s', P s a → I s → step s a = some s' → I s') :
    ∀ {as : List α} {s : σ}, I s → (Along step P s as ↔ Along step Q s as)
  | [], s, _ => ⟨fun _ => along_nil Q s, fun _ => along_nil P s⟩
  | a :: as, s, hs => by
    rw [along_cons, along_cons, hiff s a hs]
    refine and_congr_right fun ha => forall₂_congr fun s' hs' => ?_
    exact along_congr hiff hstep (hstep s a s' ((hiff s a hs).mpr ha) hs hs')

/-- Every step of a run leads to `I` if and only if `I` holds after every part of the run. -/
theorem along_post_iff {I : σ → Prop} {s : σ} {as : List α} (hs : I s) :
    Along step (fun s a => ∀ s', step s a = some s' → I s') s as ↔
      ∀ pre s', pre <+: as → run step s pre = some s' → I s' := by
  constructor
  · rintro h pre s' ⟨post, hpost⟩ hrun
    rcases pre.eq_nil_or_concat with rfl | ⟨init, a, rfl⟩
    · exact Option.some.inj hrun ▸ hs
    · rw [List.concat_eq_append] at hpost hrun
      obtain ⟨s₁, hinit, hstep⟩ := run_concat_eq_some.mp hrun
      exact h init a post (by rw [← hpost, List.append_assoc]; rfl) s₁ hinit s' hstep
  · intro h pre a post hpost s₁ hpre s' hstep
    refine h (pre ++ [a]) s' ⟨post, ?_⟩ (run_concat_eq_some.mpr ⟨s₁, hpre, hstep⟩)
    rw [hpost, List.append_assoc]
    rfl

end Transition

end NgLog
