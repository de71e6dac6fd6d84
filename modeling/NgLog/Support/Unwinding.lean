import Mathlib.Tactic.Common

/-!
# Blocks of code with exceptions and destructors

A block takes a state and is left by returning or by an exception, with a state, or ends the
process. A destructor runs whichever way a block is left, other than by ending the process.

A block preserves what holds of the state if it holds again whenever the block is left. Putting
blocks together preserves what the parts preserve. A scope that saves a part of the state and
restores it leaves that part as it was, whatever the block inside does.

## Main definitions

* `Exit`, `Block` — how code is left, and code
* `Block.bind`, `Block.catching`, `Block.cleanup`, `Block.within`, `Block.locally`, `Block.zoom`,
  `Block.forEach`, `Block.allOf` — how blocks are put together
* `Preserves` — what holds when a block is left

## Main results

* `Preserves.bind`, `preserves_within`, `Preserves.forEach`, … — the rules
* `forEach_eq` — two loops whose bodies agree while something is preserved
-/

namespace NgLog

namespace Unwinding

/-- How a block is left. -/
inductive Exit (σ ε α : Type)
  | returned (result : α) (s : σ)
  | thrown (exception : ε) (s : σ)
  | ended (s : σ)

/-- A block of code. -/
def Block (σ ε α : Type) : Type := σ → Exit σ ε α

variable {σ τ ε α β φ ι : Type}

/-- The state when control comes back. -/
def Exit.left : Exit σ ε α → Option σ
  | .returned _ s | .thrown _ s => some s
  | .ended _ => none

/-- The same exit with another state. -/
def Exit.map (f : σ → τ) : Exit σ ε α → Exit τ ε α
  | .returned a s => .returned a (f s)
  | .thrown e s => .thrown e (f s)
  | .ended s => .ended (f s)

theorem Exit.left_map (f : σ → τ) (exit : Exit σ ε α) : (exit.map f).left = exit.left.map f := by
  cases exit <;> rfl

namespace Block

def pure (a : α) : Block σ ε α := fun s => .returned a s

def throw (e : ε) : Block σ ε α := fun s => .thrown e s

/-- The process is ended. -/
def abort : Block σ ε α := fun s => .ended s

def get : Block σ ε σ := fun s => .returned s s

def modify (f : σ → σ) : Block σ ε Unit := fun s => .returned () (f s)

/-- One block after the other. -/
def bind (x : Block σ ε α) (f : α → Block σ ε β) : Block σ ε β := fun s =>
  match x s with
  | .returned a s => f a s
  | .thrown e s => .thrown e s
  | .ended s => .ended s

/-- A handler for exceptions. -/
def catching (x : Block σ ε α) (handler : ε → Block σ ε α) : Block σ ε α := fun s =>
  match x s with
  | .returned a s => .returned a s
  | .thrown e s => handler e s
  | .ended s => .ended s

/-- A destructor. -/
def cleanup (x : Block σ ε α) (destroy : σ → σ) : Block σ ε α := fun s =>
  match x s with
  | .returned a s => .returned a (destroy s)
  | .thrown e s => .thrown e (destroy s)
  | .ended s => .ended s

/-- A scope that saves a part of the state, sets it, and restores it in the end. -/
def within (save : σ → φ) (restore : φ → σ → σ) (value : φ) (x : Block σ ε α) : Block σ ε α :=
  fun s =>
  (x.cleanup (restore (save s))) (restore value s)

/-- A block with a local variable. -/
def locally (value : τ) (x : Block (σ × τ) ε α) : Block σ ε α :=
  fun s => (x (s, value)).map Prod.fst

/-- A block that works on a view of the state. -/
def zoom (view : σ → τ) (put : τ → σ → σ) (x : Block τ ε α) : Block σ ε α := fun s =>
  (x (view s)).map fun t => put t s

/-- A block for each entry of a list. -/
def forEach (f : ι → Block σ ε Unit) : List ι → Block σ ε Unit
  | [] => pure ()
  | i :: is => (f i).bind fun _ => forEach f is

/-- A test of each entry of a list, up to the first that fails. -/
def allOf (f : ι → Block σ ε Bool) : List ι → Block σ ε Bool
  | [] => pure true
  | i :: is => (f i).bind fun passed => if passed then allOf f is else pure false

end Block

open Block

/-! ### What is preserved -/

/-- What holds when the block is entered holds when it is left. -/
def Preserves (I : σ → Prop) (x : Block σ ε α) : Prop :=
  ∀ s s', I s → (x s).left = some s' → I s'

variable {I : σ → Prop} {x : Block σ ε α} {f : α → Block σ ε β}

theorem preserves_pure (a : α) : Preserves I (Block.pure a : Block σ ε α) := by
  rintro s _ hs ⟨⟩
  exact hs

theorem preserves_throw (e : ε) : Preserves I (Block.throw e : Block σ ε α) := by
  rintro s _ hs ⟨⟩
  exact hs

theorem preserves_abort : Preserves I (Block.abort : Block σ ε α) := by
  rintro s _ _ ⟨⟩

theorem preserves_get : Preserves I (Block.get : Block σ ε σ) := by
  rintro s _ hs ⟨⟩
  exact hs

theorem preserves_modify {g : σ → σ} (h : ∀ s, I s → I (g s)) :
    Preserves I (Block.modify g : Block σ ε Unit) := by
  rintro s _ hs ⟨⟩
  exact h s hs

theorem Preserves.bind (hx : Preserves I x) (hf : ∀ a, Preserves I (f a)) :
    Preserves I (x.bind f) := by
  intro s s' hs h
  rw [Block.bind] at h
  cases hexit : x s with
  | returned a s₁ =>
    rw [hexit] at h
    exact hf a s₁ s' (hx s s₁ hs (by rw [hexit]; rfl)) h
  | thrown e s₁ =>
    rw [hexit] at h
    cases h
    exact hx s s' hs (by rw [hexit]; rfl)
  | ended s₁ =>
    rw [hexit] at h
    cases h

theorem Preserves.catching {handler : ε → Block σ ε α} (hx : Preserves I x)
    (hhandler : ∀ e, Preserves I (handler e)) : Preserves I (x.catching handler) := by
  intro s s' hs h
  rw [Block.catching] at h
  cases hexit : x s with
  | returned a s₁ =>
    rw [hexit] at h
    cases h
    exact hx s s' hs (by rw [hexit]; rfl)
  | thrown e s₁ =>
    rw [hexit] at h
    exact hhandler e s₁ s' (hx s s₁ hs (by rw [hexit]; rfl)) h
  | ended s₁ =>
    rw [hexit] at h
    cases h

/-- The exits of two blocks, one after the other: those of the second one, and those of the first
one by an exception. -/
theorem left_bind {s s' : σ} (h : (x.bind f s).left = some s') :
    (∃ a s₁, x s = .returned a s₁ ∧ (f a s₁).left = some s') ∨ ∃ e, x s = .thrown e s' := by
  rw [Block.bind] at h
  cases hexit : x s with
  | returned a s₁ =>
    rw [hexit] at h
    exact .inl ⟨a, s₁, rfl, h⟩
  | thrown e s₁ =>
    rw [hexit] at h
    cases h
    exact .inr ⟨e, rfl⟩
  | ended s₁ =>
    rw [hexit] at h
    cases h

/-- The exits of a block with a destructor. -/
theorem left_cleanup {destroy : σ → σ} {s s' : σ} (h : ((x.cleanup destroy) s).left = some s') :
    ∃ s₁, (x s).left = some s₁ ∧ s' = destroy s₁ := by
  rw [Block.cleanup] at h
  cases hexit : x s with
  | returned a s₁ | thrown e s₁ =>
    rw [hexit] at h
    cases h
    exact ⟨s₁, rfl, rfl⟩
  | ended s₁ =>
    rw [hexit] at h
    cases h

theorem Preserves.cleanup {destroy : σ → σ} (hx : Preserves I x)
    (hdestroy : ∀ s, I s → I (destroy s)) :
    Preserves I (x.cleanup destroy) := by
  intro s s' hs h
  obtain ⟨s₁, hleft, rfl⟩ := left_cleanup h
  exact hdestroy s₁ (hx s s₁ hs hleft)

/-- A scope leaves what it saves as it was, whatever the block inside does. -/
theorem preserves_within {save : σ → φ} {restore : φ → σ → σ}
    (hsave : ∀ value s, save (restore value s) = value) (value old : φ) (x : Block σ ε α) :
    Preserves (fun s => save s = old) (x.within save restore value) := by
  rintro s s' rfl h
  obtain ⟨s₁, -, rfl⟩ := left_cleanup h
  exact hsave (save s) s₁

/-- A scope preserves what does not depend on what it saves. -/
theorem Preserves.within {save : σ → φ} {restore : φ → σ → σ}
    (hrestore : ∀ value s, I s → I (restore value s)) (value : φ) (hx : Preserves I x) :
    Preserves I (x.within save restore value) := fun s s' hs h =>
  hx.cleanup (hrestore _) _ s' (hrestore value s hs) h

theorem Preserves.locally {value : τ} {x : Block (σ × τ) ε α} (hx : Preserves (fun s => I s.1) x) :
    Preserves I (x.locally value) := by
  intro s s' hs h
  rw [Block.locally, Exit.left_map, Option.map_eq_some_iff] at h
  obtain ⟨s₁, hleft, rfl⟩ := h
  exact hx (s, value) s₁ hs hleft

/-- A block that works on a view preserves what the view shows. -/
theorem Preserves.zoom {view : σ → τ} {put : τ → σ → σ} {J : τ → Prop} {x : Block τ ε α}
    (hx : Preserves J x) (hview : ∀ s, I s → J (view s)) (hput : ∀ t s, I s → J t → I (put t s)) :
    Preserves I (x.zoom view put) := by
  intro s s' hs h
  rw [Block.zoom, Exit.left_map, Option.map_eq_some_iff] at h
  obtain ⟨t, hleft, rfl⟩ := h
  exact hput t s hs (hx (view s) t (hview s hs) hleft)

/-- A block that works on a view preserves what does not depend on it. -/
theorem preserves_zoom {view : σ → τ} {put : τ → σ → σ} (hput : ∀ t s, I s → I (put t s))
    (x : Block τ ε α) : Preserves I (x.zoom view put) := by
  intro s s' hs h
  rw [Block.zoom, Exit.left_map, Option.map_eq_some_iff] at h
  obtain ⟨t, -, rfl⟩ := h
  exact hput t s hs

theorem Preserves.forEach {f : ι → Block σ ε Unit} {is : List ι}
    (hf : ∀ i ∈ is, Preserves I (f i)) :
    Preserves I (Block.forEach f is) := by
  induction is with
  | nil => exact preserves_pure ()
  | cons i is ih =>
    exact (hf i (List.mem_cons_self ..)).bind fun _ => ih fun j hj =>
      hf j (List.mem_cons_of_mem _ hj)

theorem Preserves.allOf {f : ι → Block σ ε Bool} {is : List ι} (hf : ∀ i ∈ is, Preserves I (f i)) :
    Preserves I (Block.allOf f is) := by
  induction is with
  | nil => exact preserves_pure true
  | cons i is ih =>
    refine (hf i (List.mem_cons_self ..)).bind fun passed => ?_
    cases passed with
    | false => exact preserves_pure false
    | true => exact ih fun j hj => hf j (List.mem_cons_of_mem _ hj)

/-! ### Blocks that return -/

theorem Preserves.returned {s s' : σ} {a : α} (hx : Preserves I x) (hs : I s)
    (h : x s = .returned a s') : I s' := hx s s' hs (by rw [h]; rfl)

theorem bind_eq_returned {b : β} {s s' : σ} :
    x.bind f s = .returned b s' ↔ ∃ a s₁, x s = .returned a s₁ ∧ f a s₁ = .returned b s' := by
  rw [Block.bind]
  cases x s with
  | returned a s₁ =>
    constructor
    · exact fun h => ⟨a, s₁, rfl, h⟩
    · rintro ⟨_, _, ⟨⟩, h⟩
      exact h
  | thrown e s₁ | ended s₁ =>
    constructor
    · rintro ⟨⟩
    · rintro ⟨_, _, ⟨⟩, -⟩

/-! ### Blocks that agree -/

/-- Two blocks agree that go on from the same block, if what follows agrees where that one stays. -/
theorem bind_eq {g : α → Block σ ε β} (hx : Preserves I x)
    (hagree : ∀ a s, I s → f a s = g a s) {s : σ} (hs : I s) : x.bind f s = x.bind g s := by
  rw [Block.bind, Block.bind]
  cases hexit : x s with
  | returned a s₁ => exact hagree a s₁ (hx s s₁ hs (by rw [hexit]; rfl))
  | thrown e s₁ => rfl
  | ended s₁ => rfl

/-- Two loops agree where their bodies do so, if the bodies of one stay there. -/
theorem forEach_eq {f g : ι → Block σ ε Unit} {is : List ι} (hf : ∀ i ∈ is, Preserves I (f i))
    (hagree : ∀ i ∈ is, ∀ s, I s → f i s = g i s) {s : σ} (hs : I s) :
    Block.forEach f is s = Block.forEach g is s := by
  induction is generalizing s with
  | nil => rfl
  | cons i is ih =>
    have hrest : ((f i).bind fun _ => Block.forEach f is) s = ((f i).bind fun _ =>
        Block.forEach g is) s :=
      bind_eq (hf i (List.mem_cons_self ..)) (fun _ s₁ hs₁ =>
        ih (fun j hj => hf j (List.mem_cons_of_mem _ hj))
          (fun j hj => hagree j (List.mem_cons_of_mem _ hj)) hs₁) hs
    rw [Block.forEach, Block.forEach, hrest, Block.bind, Block.bind,
      hagree i (List.mem_cons_self ..) s hs]

theorem Block.forEach_map (f : ι → Block σ ε Unit) (g : φ → ι) (is : List φ) :
    Block.forEach f (is.map g) = Block.forEach (fun i => f (g i)) is := by
  induction is with
  | nil => rfl
  | cons i is ih => rw [List.map_cons, Block.forEach, Block.forEach, ih]

end Unwinding

end NgLog
