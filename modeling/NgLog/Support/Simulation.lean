import Mathlib.Tactic.Common

/-!
# Simulation of a specification

A machine answers each operation with a reply, or gets stuck. A specification is a machine that
never does. If a relation between their states is kept by every operation, with the same reply, then
the machine never gets stuck and answers every sequence of operations as the specification does.

## Main definitions

* `trace` — the state after some operations, and the replies
* `execute` — the same for a specification
* `Simulates` — a relation that every operation keeps

## Main results

* `Simulates.trace_eq` — equal replies for every sequence of operations
-/

namespace NgLog

namespace Simulation

variable {σ τ α β : Type*}

/-- The state after the operations and the replies, if the machine does not get stuck. -/
def trace (step : σ → α → Option (σ × β)) : σ → List α → Option (σ × List β)
  | s, [] => some (s, [])
  | s, a :: as => (step s a).bind fun r => (trace step r.1 as).map fun q => (q.1, r.2 :: q.2)

/-- The state of the specification after the operations, and the replies. -/
def execute (spec : τ → α → τ × β) : τ → List α → τ × List β
  | t, [] => (t, [])
  | t, a :: as =>
    ((execute spec (spec t a).1 as).1, (spec t a).2 :: (execute spec (spec t a).1 as).2)

/-- In related states the machine answers every operation as the specification does, and the states
after it are related. -/
def Simulates (step : σ → α → Option (σ × β)) (spec : τ → α → τ × β) (R : σ → τ → Prop) : Prop :=
  ∀ s t a, R s t → ∃ s', step s a = some (s', (spec t a).2) ∧ R s' (spec t a).1

theorem trace_cons {step : σ → α → Option (σ × β)} {s s' : σ} {a : α} {b : β}
    (h : step s a = some (s', b)) (as : List α) :
    trace step s (a :: as) = (trace step s' as).map fun r => (r.1, b :: r.2) := by
  rw [trace, h, Option.bind_some]

/-- From related states, the replies to every sequence of operations are those of the
specification. -/
theorem Simulates.trace_eq {step : σ → α → Option (σ × β)} {spec : τ → α → τ × β}
    {R : σ → τ → Prop} (h : Simulates step spec R) (as : List α) {s : σ} {t : τ} (hst : R s t) :
    ∃ s', trace step s as = some (s', (execute spec t as).2) ∧ R s' (execute spec t as).1 := by
  induction as generalizing s t with
  | nil => exact ⟨s, rfl, hst⟩
  | cons a as ih =>
    obtain ⟨s₁, hstep, hst₁⟩ := h s t a hst
    obtain ⟨s₂, htrace, hst₂⟩ := ih hst₁
    refine ⟨s₂, ?_, hst₂⟩
    rw [trace_cons hstep, htrace]
    rfl

end Simulation

end NgLog
