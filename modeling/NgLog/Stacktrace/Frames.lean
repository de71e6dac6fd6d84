import Mathlib.Data.List.Chain
import Mathlib.Data.UInt

/-!
# Walking the stack

Each frame of a stack points at the frame of its caller, and above the pointer is the return
address. The walk runs while the program crashes, on memory that may hold anything. It follows a
pointer only to an aligned frame that is above the present one, and not too far. So it ends on any
memory, and on a stack of such frames it collects exactly the return addresses.

## Main definitions

* `nextStackFrame`, `getStackTrace` — the walk
* `Frames` — the frames that are walked

## Main results

* `getStackTrace_eq` — what is collected from any memory
* `getStackTrace_stack` — what is collected from a stack
-/

namespace NgLog

namespace Stacktrace

/-- The words of the memory. -/
abbrev Memory : Type := UInt64 → UInt64

/-- `NextStackFrame`, with strict checks. -/
def nextStackFrame (memory : Memory) (oldSp : UInt64) : Option UInt64 :=
  let newSp := memory oldSp
  if newSp ≤ oldSp then none
  else if newSp - oldSp > 100000 then none
  else if newSp &&& 7 ≠ 0 then none
  else some newSp

/-- The return address of a frame. -/
def returnAddress (memory : Memory) (sp : UInt64) : UInt64 := memory (sp + 8)

/-- A frame from which another one is reached. -/
def Above (sp sp' : UInt64) : Prop := sp < sp' ∧ sp' - sp ≤ 100000 ∧ sp' &&& 7 = 0

theorem nextStackFrame_eq_some {memory : Memory} {sp sp' : UInt64} :
    nextStackFrame memory sp = some sp' ↔ memory sp = sp' ∧ Above sp sp' := by
  rw [nextStackFrame, Above]
  constructor
  · intro h
    split at h
    · cases h
    · rename_i hle
      split at h
      · cases h
      · rename_i hfar
        split at h
        · cases h
        · rename_i haligned
          cases h
          exact ⟨rfl, UInt64.not_le.mp hle, UInt64.not_lt.mp hfar, by simpa using haligned⟩
  · rintro ⟨rfl, hlt, hnear, haligned⟩
    rw [if_neg (UInt64.not_le.mpr hlt), if_neg (UInt64.not_lt.mpr hnear),
      if_neg (by simpa using haligned)]

/-- How far it is to the end of the memory. -/
def room (sp : Option UInt64) : ℕ := sp.elim 0 fun sp => 2 ^ 64 - sp.toNat

theorem room_nextStackFrame_lt (memory : Memory) (sp : UInt64) :
    room (nextStackFrame memory sp) < room (some sp) := by
  have hsp := sp.toNat_lt
  cases hnext : nextStackFrame memory sp with
  | none =>
    simp only [room, Option.elim]
    omega
  | some sp' =>
    have hlt := UInt64.lt_iff_toNat_lt.mp (nextStackFrame_eq_some.mp hnext).2.1
    simp only [room, Option.elim]
    omega

/-- The loop of `GetStackTrace`: the frame, how many results are missing, and how many frames to
skip. -/
def walk (memory : Memory) (sp : Option UInt64) (missing skipCount : ℕ) : List UInt64 :=
  match sp with
  | none => []
  | some sp =>
    if missing = 0 then []
    else if returnAddress memory sp = 0 then []
    else if 0 < skipCount then walk memory (nextStackFrame memory sp) missing (skipCount - 1)
    else returnAddress memory sp :: walk memory (nextStackFrame memory sp) (missing - 1) skipCount
termination_by room sp
decreasing_by
  · exact room_nextStackFrame_lt memory sp
  · exact room_nextStackFrame_lt memory sp

/-- The frame at an address that is not null. -/
def frameAt (sp : UInt64) : Option UInt64 := if sp = 0 then none else some sp

/-- `GetStackTrace`, for the frame that it starts at. -/
def getStackTrace (memory : Memory) (sp : UInt64) (maxDepth skipCount : ℤ) : List UInt64 :=
  walk memory (frameAt sp) maxDepth.toNat skipCount.toNat

/-! ### Any memory -/

/-- The frames that are walked from a frame on. -/
inductive Frames (memory : Memory) : Option UInt64 → List UInt64 → Prop
  | null : Frames memory none []
  | outermost {sp : UInt64} (h : returnAddress memory sp = 0) : Frames memory (some sp) []
  | frame {sp : UInt64} {frames : List UInt64} (h : returnAddress memory sp ≠ 0)
    (hrest : Frames memory (nextStackFrame memory sp) frames) : Frames memory (some sp)
      (sp :: frames)

variable {memory : Memory} {frames : List UInt64}

/-- The walk ends. -/
theorem exists_frames (memory : Memory) (sp : Option UInt64) :
    ∃ frames, Frames memory sp frames := by
  induction hn : room sp using Nat.strong_induction_on generalizing sp with
  | _ n ih =>
    cases sp with
    | none => exact ⟨[], .null⟩
    | some sp =>
      by_cases h : returnAddress memory sp = 0
      · exact ⟨[], .outermost h⟩
      · have hlt := room_nextStackFrame_lt memory sp
        rw [hn] at hlt
        obtain ⟨frames, hframes⟩ := ih _ hlt (nextStackFrame memory sp) rfl
        exact ⟨sp :: frames, .frame h hframes⟩

theorem Frames.head {sp : Option UInt64} (h : Frames memory sp frames) :
    ∀ sp' ∈ frames.head?, sp = some sp' := by
  cases h with
  | null => exact fun sp' hsp' => absurd hsp' (Option.not_mem_none sp')
  | outermost _ => exact fun sp' hsp' => absurd hsp' (Option.not_mem_none sp')
  | frame _ _ =>
    rintro sp' ⟨⟩
    rfl

/-- Each frame is above the one before. -/
theorem Frames.isChain {sp : Option UInt64} (h : Frames memory sp frames) :
    frames.IsChain Above := by
  induction h with
  | null => exact .nil
  | outermost _ => exact .nil
  | frame _ hrest ih =>
    refine List.isChain_cons.mpr ⟨fun sp' hsp' => ?_, ih⟩
    exact (nextStackFrame_eq_some.mp (hrest.head sp' hsp')).2

theorem walk_eq {sp : Option UInt64} (h : Frames memory sp frames) (missing skipCount : ℕ) :
    walk memory sp missing skipCount = ((frames.map (returnAddress memory)).drop skipCount).take
      missing := by
  induction h generalizing missing skipCount with
  | null =>
    rw [walk, List.map_nil, List.drop_nil, List.take_nil]
  | outermost h =>
    rw [walk, List.map_nil, List.drop_nil, List.take_nil]
    simp only [h, if_true, ite_self]
  | @frame sp frames h _ ih =>
    rw [walk, List.map_cons]
    split
    · rename_i hmissing
      rw [hmissing, List.take_zero]
    · rename_i hmissing
      cases skipCount with
      | zero =>
        obtain ⟨missing, rfl⟩ := Nat.exists_eq_succ_of_ne_zero hmissing
        rw [if_neg (Nat.lt_irrefl 0), ih, List.drop_zero, List.drop_zero, List.take_succ_cons]
        rfl
      | succ skipCount =>
        rw [if_pos (Nat.succ_pos skipCount), ih, List.drop_succ_cons, Nat.succ_sub_one]

/-- The memory holds the frames of a stack: each one has a return address and points at its
caller's, which is above, and the last one points nowhere. -/
def IsStack (memory : Memory) : List UInt64 → Prop
  | [] => True
  | [sp] => returnAddress memory sp ≠ 0 ∧ memory sp = 0
  | sp :: sp' :: frames => returnAddress memory sp ≠ 0 ∧ memory sp = sp' ∧ Above sp sp' ∧
    IsStack memory (sp' :: frames)

theorem frames_of_isStack {sp : UInt64} (h : IsStack memory (sp :: frames)) :
    Frames memory (some sp) (sp :: frames) := by
  induction frames generalizing sp with
  | nil =>
    obtain ⟨hreturn, hnull⟩ := h
    have hnext : nextStackFrame memory sp = none := by
      rw [nextStackFrame, hnull]
      exact if_pos (UInt64.le_iff_toNat_le.mpr (Nat.zero_le _))
    exact .frame hreturn (hnext ▸ .null)
  | cons sp' frames ih =>
    obtain ⟨hreturn, hcaller, habove, hrest⟩ := h
    have hnext : nextStackFrame memory sp = some sp' := nextStackFrame_eq_some.mpr ⟨hcaller, habove⟩
    exact .frame hreturn (hnext ▸ ih hrest)

/-- Of a stack exactly the return addresses are collected, from the innermost frame on. -/
theorem getStackTrace_stack {sp : UInt64} (hsp : sp ≠ 0) (h : IsStack memory (sp :: frames))
    (maxDepth skipCount : ℤ) : getStackTrace memory sp maxDepth skipCount =
      (((sp :: frames).map (returnAddress memory)).drop skipCount.toNat).take maxDepth.toNat := by
  rw [getStackTrace, frameAt, if_neg hsp]
  exact walk_eq (frames_of_isStack h) _ _

/-- Three frames. -/
def threeFrames : Memory := fun address =>
  if address = 1600 then 1664 else if address = 1608 then 7 else if address = 1664 then 1712
  else if address = 1672 then 8 else if address = 1720 then 9 else 0

theorem threeFrames_isStack : IsStack threeFrames [1600, 1664, 1712] :=
  ⟨by decide, by decide, ⟨by decide, by decide, by decide⟩, by decide, by decide,
    ⟨by decide, by decide, by decide⟩, by decide, by decide⟩

theorem getStackTrace_stack_three : getStackTrace threeFrames 1600 5 1 = [8, 9] :=
  (getStackTrace_stack (by decide) threeFrames_isStack 5 1).trans (by decide)

end Stacktrace

end NgLog
