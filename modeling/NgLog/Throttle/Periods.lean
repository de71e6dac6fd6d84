import Mathlib.Data.List.Chain
import NgLog.Throttle.Counting

/-!
# Rate limits by time

`ClaimEveryT` reads the clock once, and then claims the period for this time unless the period
claimed before is too recent. By then another thread may have claimed a later time than that of the
caller. The difference is negative then, so the caller claims nothing.

A call claims in the step in which it exchanges the time claimed before. So each claim follows the
one before it by more than the period, in whatever order the threads read the clock and take their
steps. Zero stands for no claim, which no claim sets again, since the clock is positive.

## Main definitions

* `claimEveryT` — the function, for a call with the time that it has read
* `claimed` — the times that have been claimed, in order

## Main results

* `decides_claimEveryT` — one call
* `claims_spaced` — the claims of every run
-/

namespace NgLog

namespace Throttle

open CompareExchange

/-! ### The code -/

/-- `std::int64_t`. -/
def int64 : IntegerType := ⟨true, 64, by decide⟩

/-- A difference of signed integers, unless it overflows. -/
def IntegerType.subtract (T : IntegerType) (m n : ℤ) : Option ℤ :=
  if T.Holds (m - n) then some (m - n) else none

/-- `ClaimEveryT`, after it has read the clock. -/
def claimEveryT (period now : ℤ) : Code Unit ℤ Bool :=
  .retry fun last =>
    if last = 0 then some (.exchange now true)
    else
      (int64.subtract now last).map fun passed =>
        if period < passed then .exchange now true else .give false

/-- The times that have been claimed. -/
def claimed (decided : List (ℤ × Bool)) : List ℤ :=
  (decided.filter Prod.snd).map Prod.fst

/-! ### One call -/

/-- What holds of the claimed time and of the decisions: the claims are apart from each other, the
last one is the claimed time, and the first call has claimed. -/
structure Spaced (period last : ℤ) (decided : List (ℤ × Bool)) : Prop where
  apart : (claimed decided).IsChain fun earlier later => period < later - earlier
  last : last = (claimed decided).getLast?.getD 0
  positive : ∀ time ∈ claimed decided, 0 < time ∧ time ≤ int64.max
  first : ∀ call, decided.head? = some call → call.2 = true

theorem spaced_nil (period : ℤ) : Spaced period 0 [] where
  apart := .nil
  last := rfl
  positive _ h := absurd h List.not_mem_nil
  first _ h := absurd h.symm (Option.some_ne_none _)

theorem claimed_concat (decided : List (ℤ × Bool)) (now : ℤ) :
    claimed (decided ++ [(now, true)]) = claimed decided ++ [now] := by
  rw [claimed, List.filter_append, List.map_append]
  rfl

theorem claimed_concat_false (decided : List (ℤ × Bool)) (now : ℤ) :
    claimed (decided ++ [(now, false)]) = claimed decided := by
  rw [claimed, List.filter_append, List.map_append]
  exact List.append_nil _

theorem first_concat {decided : List (ℤ × Bool)} {call : ℤ × Bool}
    (h : ∀ call, decided.head? = some call → call.2 = true) (hcall : decided = [] → call.2 = true)
    (first : ℤ × Bool) (hfirst : (decided ++ [call]).head? = some first) : first.2 = true := by
  rcases decided with _ | ⟨head, decided⟩
  · rw [← Option.some.inj hfirst]
    exact hcall rfl
  · exact h first hfirst

/-- A claim. -/
theorem Spaced.claim {period last now : ℤ} {decided : List (ℤ × Bool)}
    (h : Spaced period last decided) (hnow : 0 < now ∧ now ≤ int64.max)
    (hlast : last = 0 ∨ period < now - last) : Spaced period now (decided ++ [(now, true)]) where
  apart := by
    rw [claimed_concat]
    refine h.apart.append (.singleton now) fun time htime later hlater => ?_
    obtain rfl : now = later := Option.some.inj hlater
    have htime' : (claimed decided).getLast? = some time := htime
    have hclaimed : last = time := by rw [h.last, htime', Option.getD_some]
    have hpositive := (h.positive time (List.mem_of_getLast? htime')).1
    rw [hclaimed] at hlast
    exact hlast.resolve_left (Int.ne_of_gt hpositive)
  last := by rw [claimed_concat, List.getLast?_concat, Option.getD_some]
  positive time htime := by
    rw [claimed_concat, List.mem_append, List.mem_singleton] at htime
    rcases htime with hmem | rfl
    · exact h.positive time hmem
    · exact hnow
  first := first_concat h.first fun _ => rfl

/-- A call that claims nothing follows a claim. -/
theorem Spaced.pass {period last now : ℤ} {decided : List (ℤ × Bool)}
    (h : Spaced period last decided) (hlast : last ≠ 0) :
    Spaced period last (decided ++ [(now, false)]) where
  apart := by
    rw [claimed_concat_false]
    exact h.apart
  last := by
    rw [claimed_concat_false]
    exact h.last
  positive := by
    rw [claimed_concat_false]
    exact h.positive
  first := first_concat h.first fun hnil => by
    subst hnil
    exact absurd h.last hlast

/-- The claimed time is one of the claims, so that it is in the range of the clock. -/
theorem Spaced.range {period last : ℤ} {decided : List (ℤ × Bool)}
    (h : Spaced period last decided) (hlast : last ≠ 0) : 0 < last ∧ last ≤ int64.max := by
  rcases hclaimed : (claimed decided).getLast? with _ | time
  · exact absurd (by rw [h.last, hclaimed, Option.getD_none]) hlast
  · have htime : last = time := by rw [h.last, hclaimed, Option.getD_some]
    exact htime ▸ h.positive time (List.mem_of_getLast? hclaimed)

/-- One call, with the time that it has read. -/
theorem decides_claimEveryT (period : ℤ) {now : ℤ} (hnow : 0 < now ∧ now ≤ int64.max) :
    Decides (Spaced period) now (claimEveryT period now) := by
  intro last decided h
  dsimp only
  by_cases hzero : last = 0
  · exact ⟨.exchange now true, if_pos hzero, h.claim hnow (.inl hzero)⟩
  · have hrange := h.range hzero
    have hdifference : int64.subtract now last = some (now - last) := by
      refine if_pos ⟨?_, ?_⟩
      · change -2 ^ 63 ≤ now - last
        have hmax : int64.max = 2 ^ 63 - 1 := rfl
        omega
      · omega
    rw [if_neg hzero, hdifference, Option.map_some]
    by_cases hpassed : period < now - last
    · exact ⟨_, rfl, by rw [if_pos hpassed]; exact h.claim hnow (.inr hpassed)⟩
    · exact ⟨_, rfl, by rw [if_neg hpassed]; exact h.pass hzero⟩

/-! ### All runs -/

/-- For every period, any number of threads with positive readings of the clock, and every order of
their steps: each claimed time is later than the one before it by more than the period, and the
first call that decides has claimed. No difference overflows. -/
theorem claims_spaced {T : Type} [DecidableEq T] {period : ℤ} (hperiod : 0 ≤ period)
    {events : List (Event T ℤ)}
    (hclock : ∀ thread now, .call thread now ∈ events → 0 < now ∧ now ≤ int64.max)
    {s : State T ℤ Unit ℤ Bool}
    (h : Transition.run (step (claimEveryT period)) (init () 0) events = some s) :
    (claimed s.decided).Pairwise (· < ·) ∧
      (claimed s.decided).IsChain (fun earlier later => period < later - earlier) ∧
      (∀ call, s.decided.head? = some call → call.2 = true) ∧ s.failed = false := by
  obtain ⟨hspaced, hfailed⟩ :=
    run_decides (spaced_nil period) (fun now hnow => decides_claimEveryT period hnow) hclock h
  refine ⟨?_, hspaced.apart, hspaced.first, hfailed⟩
  refine List.isChain_iff_pairwise.mp (hspaced.apart.imp fun earlier later hapart => ?_)
  omega

/-- A thread that has read an earlier time than the claimed one claims nothing. -/
theorem claims_spaced_late : ∃ s : State Bool ℤ Unit ℤ Bool,
    Transition.run (step (claimEveryT 0)) (init () 0)
        [.call false 1, .call true 2, .step true false, .step true false, .step false false] =
      some s ∧ s.decided = [(2, true), (1, false)] ∧ (claimed s.decided).Pairwise (· < ·) := by
  have hrun : ∃ s : State Bool ℤ Unit ℤ Bool,
      Transition.run (step (claimEveryT 0)) (init () 0)
          [.call false 1, .call true 2, .step true false, .step true false, .step false false] =
        some s ∧ s.decided = [(2, true), (1, false)] := ⟨_, rfl, rfl⟩
  obtain ⟨s, hs, hdecided⟩ := hrun
  refine ⟨s, hs, hdecided, (claims_spaced (Int.le_refl 0) ?_ hs).1⟩
  intro thread now hmem
  simp only [List.mem_cons, Event.call.injEq, reduceCtorEq, List.not_mem_nil, or_false] at hmem
  rcases hmem with ⟨-, rfl⟩ | ⟨-, rfl⟩ <;> decide

end Throttle

end NgLog
