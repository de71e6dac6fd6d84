import NgLog.Demangle.InitialContent
import NgLog.Demangle.Safety

/-!
# The text that a successful run leaves

Backtracking restores the output cursor but not the bytes behind it. This file says exactly when the
string in the caller's buffer is nevertheless the text that the successful derivation has kept.

The record of the writes settles it. The buffer holds, at each offset, what the last write of the
run to that offset has written, whichever alternative it belongs to; the text of the derivation is
what the last of its own writes have written. Both are invariants of every built function, the first
of the store alone and the second of the state alone, so that restoring the state keeps them.

## Main definitions

* `replay` — the text of a list of writes
* `lastAt`, `lastByte` — the newest write to an offset, and its byte
* `Logged`, `Closed`, `keeping` — the invariants and their frame
* `HoldsText`, `Settled` — the string in the buffer is the text; no abandoned write has spoilt it
* `Undisturbed` — the latter of a mangled name and a size, whatever the buffer held before

## Main results

* `Built.runs_keeping` — every built function keeps the invariants
* `demangle_text` — the condition under which the result is the kept text
* `demangle_text_fails` — without it, the result can hold bytes of an abandoned alternative
-/

namespace NgLog

namespace Demangle

open Backtracking (Machine Outcome Frame)

variable {w : CString}

/-! ### The record of the writes -/

/-- The text that a list of writes produces, newest write first. -/
def replay : List Write → List Byte
  | [] => []
  | write :: writes =>
    match write.op with
    | .put b => replay writes ++ [b]
    | .terminate => replay writes
    | .cut _ => (replay writes).take ((replay writes).length - 2)

/-- The newest write to the offset `i`. -/
def lastAt (i : ℕ) (writes : List Write) : Option Write := writes.find? fun write => write.pos == i

/-- The byte that the newest write to the offset `i` has written. -/
def lastByte (i : ℕ) (writes : List Write) : Option Byte :=
  (lastAt i writes).map fun write => write.op.byte

theorem lastAt_cons_self (write : Write) (writes : List Write) :
    lastAt write.pos (write :: writes) = some write :=
  List.find?_cons_of_pos (beq_iff_eq.mpr rfl)

theorem lastAt_cons_of_ne {i : ℕ} {write : Write} (writes : List Write) (h : write.pos ≠ i) :
    lastAt i (write :: writes) = lastAt i writes :=
  List.find?_cons_of_neg (by simpa using h)

theorem lastAt_mem {i : ℕ} {write : Write} {writes : List Write}
    (h : lastAt i writes = some write) : write ∈ writes ∧ write.pos = i := by
  have hpos := List.find?_some h
  exact ⟨List.mem_of_find?_eq_some h, beq_iff_eq.mp hpos⟩

theorem lastByte_cons_self {time i : ℕ} {op : OutputOp} {writes : List Write} :
    lastByte i (⟨time, i, op⟩ :: writes) = some op.byte := by
  have h := lastAt_cons_self ⟨time, i, op⟩ writes
  rw [lastByte, h, Option.map_some]

theorem lastByte_cons_of_ne {time i j : ℕ} {op : OutputOp} {writes : List Write} (h : j ≠ i) :
    lastByte i (⟨time, j, op⟩ :: writes) = lastByte i writes := by
  rw [lastByte, lastAt_cons_of_ne writes h, lastByte]

/-- A write to an offset leaves one there. -/
theorem exists_lastAt_of_sublist {i : ℕ} {b : Byte} {kept writes : List Write}
    (h : kept.Sublist writes) (hkept : lastByte i kept = some b) :
    ∃ write, lastAt i writes = some write := by
  obtain ⟨write, hlast, -⟩ := Option.map_eq_some_iff.mp hkept
  obtain ⟨hmem, hpos⟩ := lastAt_mem hlast
  refine Option.isSome_iff_exists.mp (List.find?_isSome.mpr ⟨write, h.mem hmem, ?_⟩)
  exact beq_iff_eq.mpr hpos

/-- The newest write to an offset is later than the others to it. -/
theorem eq_or_lt_of_lastAt {i : ℕ} {newest write : Write} {writes : List Write}
    (hordered : writes.Pairwise fun newer older => older.time < newer.time)
    (hlast : lastAt i writes = some newest) (hmem : write ∈ writes) (hpos : write.pos = i) :
    write = newest ∨ write.time < newest.time := by
  induction writes with
  | nil => cases hmem
  | cons first rest ih =>
    obtain ⟨hfirst, hrest⟩ := List.pairwise_cons.mp hordered
    by_cases hi : first.pos = i
    · subst hi
      cases (lastAt_cons_self ..).symm.trans hlast
      exact (List.mem_cons.mp hmem).imp_right (hfirst write)
    · rw [lastAt_cons_of_ne _ hi] at hlast
      refine ih hrest hlast ((List.mem_cons.mp hmem).resolve_left fun heq => ?_)
      exact hi (heq ▸ hpos)

/-- The newest write of all, if it is among some of them, is the newest of these. -/
theorem lastAt_of_mem {i : ℕ} {write : Write} {kept writes : List Write}
    (h : kept.Sublist writes)
    (hordered : writes.Pairwise fun newer older => older.time < newer.time)
    (hlast : lastAt i writes = some write) (hmem : write ∈ kept) : lastAt i kept = some write := by
  induction h with
  | slnil => cases hmem
  | cons newest hsub ih =>
    obtain ⟨hnewest, hordered⟩ := List.pairwise_cons.mp hordered
    by_cases hpos : newest.pos = i
    · -- the newest write is not among the kept ones
      subst hpos
      cases (lastAt_cons_self ..).symm.trans hlast
      exact absurd (hnewest _ (hsub.mem hmem)) (Nat.lt_irrefl _)
    · rw [lastAt_cons_of_ne _ hpos] at hlast
      exact ih hordered hlast hmem
  | cons_cons newest hsub ih =>
    obtain ⟨-, hordered⟩ := List.pairwise_cons.mp hordered
    by_cases hpos : newest.pos = i
    · subst hpos
      rw [lastAt_cons_self] at hlast ⊢
      exact hlast
    · rw [lastAt_cons_of_ne _ hpos] at hlast ⊢
      refine ih hordered hlast ((List.mem_cons.mp hmem).resolve_left fun heq => ?_)
      exact hpos (heq ▸ (lastAt_mem hlast).2)

/-! ### The invariants -/

/-- The writes of the run are in the order of their times. -/
structure Ordered (writes : List Write) : Prop where
  time_lt : ∀ write ∈ writes, write.time < writes.length
  pairwise : writes.Pairwise fun newer older => older.time < newer.time

theorem Ordered.cons {writes : List Write} (h : Ordered writes) (pos : ℕ) (op : OutputOp) :
    Ordered (⟨writes.length, pos, op⟩ :: writes) := by
  refine ⟨fun write hmem => ?_, List.pairwise_cons.mpr ⟨h.time_lt, h.pairwise⟩⟩
  rw [List.length_cons]
  rcases List.mem_cons.mp hmem with rfl | hmem
  · exact Nat.lt_succ_self _
  · exact Nat.lt_succ_of_lt (h.time_lt write hmem)

/-- The buffer holds what the run has last written, and the writes that the derivation has kept make
up the text before the cursor. -/
structure Logged (m : Machine State Store) : Prop where
  buffer : ∀ i write, lastAt i m.store.ops = some write →
    m.store.out[i]? = some ⟨write.op.byte, true⟩
  ordered : Ordered m.store.ops
  sublist : m.state.kept.Sublist m.store.ops
  length : (replay m.state.kept).length = m.state.outCur
  text : ∀ i < m.state.outCur, lastByte i m.state.kept = (replay m.state.kept)[i]?

/-- Besides, unless it has overflowed, the derivation has terminated its text. -/
structure Closed (m : Machine State Store) : Prop extends Logged m where
  closed : m.state.overflowed = false → lastByte m.state.outCur m.state.kept = some 0

/-- What a parse function does to the text. -/
structure Follows (w : CString) (m m' : Machine State Store) : Prop where
  cursor_le : m'.state.mangledCur ≤ w.length
  ops : m.store.ops <:+ m'.store.ops
  keeps : Closed m → Closed m'

theorem Follows.trans {m₁ m₂ m₃ : Machine State Store} (h : Follows w m₁ m₂)
    (h' : Follows w m₂ m₃) : Follows w m₁ m₃ :=
  ⟨h'.cursor_le, h.ops.trans h'.ops, fun hm => h'.keeps (h.keeps hm)⟩

/-- Restoring the state takes back what the derivation has kept; the record of the run and the
buffer that it describes stay. -/
theorem Follows.restore {m m' : Machine State Store} (hcur : m.state.mangledCur ≤ w.length)
    (h : Follows w m m') : Follows w m { m' with state := m.state } := by
  refine ⟨hcur, h.ops, fun hm => ?_⟩
  have hm' := h.keeps hm
  exact ⟨⟨hm'.buffer, hm'.ordered, hm.sublist.trans h.ops.sublist, hm.length, hm.text⟩, hm.closed⟩

/-- Faults are let through; the cursor stays in the name so that scans are scans. -/
def keeping (w : CString) : Frame Fault State Store where
  allowed _ := True
  inv m := m.state.mangledCur ≤ w.length
  rel := Follows w
  progress _ _ := True
  rel_refl h := ⟨h, List.suffix_refl _, id⟩
  rel_trans := Follows.trans
  inv_of_rel _ h := h.cursor_le
  rel_restore h h' := h'.restore h
  progress_of_rel _ _ := trivial
  rel_progress _ _ := trivial

/-! ### The elementary changes -/

/-- The machines agree on everything that the text depends on. -/
structure SameText (w : CString) (m m' : Machine State Store) : Prop where
  cursor_le : m'.state.mangledCur ≤ w.length
  out : m'.store.out = m.store.out
  ops : m'.store.ops = m.store.ops
  outCur : m'.state.outCur = m.state.outCur
  kept : m'.state.kept = m.state.kept
  overflowed : m'.state.overflowed = false → m.state.overflowed = false

theorem SameText.logged {m m' : Machine State Store} (h : SameText w m m') (hm : Logged m) :
    Logged m' := by
  refine ⟨?_, ?_, ?_, ?_, ?_⟩
  · rw [h.out, h.ops]
    exact hm.buffer
  · rw [h.ops]
    exact hm.ordered
  · rw [h.ops, h.kept]
    exact hm.sublist
  · rw [h.kept, h.outCur]
    exact hm.length
  · rw [h.kept, h.outCur]
    exact hm.text

theorem SameText.follows {m m' : Machine State Store} (h : SameText w m m') : Follows w m m' := by
  refine ⟨h.cursor_le, h.ops ▸ List.suffix_refl _, fun hm => ⟨h.logged hm.toLogged, fun ho => ?_⟩⟩
  rw [h.outCur, h.kept]
  exact hm.closed (h.overflowed ho)

/-- A write keeps what concerns the run; what concerns the text is to be shown. -/
theorem logged_wrote {m : Machine State Store} (hm : Logged m) {pos : ℕ} {op : OutputOp}
    (hpos : pos < m.store.out.length) {outCur : ℕ}
    (hlength : (replay (wrote m pos op).state.kept).length = outCur)
    (htext : ∀ i < outCur, lastByte i (wrote m pos op).state.kept =
      (replay (wrote m pos op).state.kept)[i]?) :
    Logged ⟨{ (wrote m pos op).state with outCur := outCur }, (wrote m pos op).store⟩ := by
  refine ⟨fun i write hlast => ?_, hm.ordered.cons pos op, hm.sublist.cons_cons _, hlength, htext⟩
  by_cases hi : pos = i
  · subst hi
    cases (lastAt_cons_self ⟨m.store.ops.length, pos, op⟩ m.store.ops).symm.trans hlast
    exact List.getElem?_set_self hpos
  · have hother : lastAt i (⟨m.store.ops.length, pos, op⟩ :: m.store.ops) = lastAt i m.store.ops :=
      lastAt_cons_of_ne _ hi
    exact (List.getElem?_set_ne hi).trans (hm.buffer i write (hother.symm.trans hlast))

theorem logged_emitted {m : Machine State Store} (hm : Logged m) (b : Byte)
    (hlt : m.state.outCur < m.store.out.length) : Logged (emitted m b) := by
  refine logged_wrote hm hlt ?_ fun i hi => ?_
  · simp only [wrote, replay, List.length_append, List.length_singleton, hm.length]
  · simp only [wrote, replay]
    rcases Nat.lt_succ_iff_lt_or_eq.mp hi with hlt | rfl
    · rw [lastByte_cons_of_ne (Nat.ne_of_gt hlt), hm.text i hlt,
        List.getElem?_append_left (hm.length ▸ hlt)]
    · rw [lastByte_cons_self, ← hm.length, List.getElem?_concat_length]
      rfl

theorem closed_terminated {m : Machine State Store} (hm : Logged m)
    (hlt : m.state.outCur < m.store.out.length) : Closed (terminated m) := by
  refine ⟨logged_wrote hm hlt hm.length fun i hi => ?_, fun _ => lastByte_cons_self⟩
  simp only [wrote, replay]
  rw [lastByte_cons_of_ne (Nat.ne_of_gt hi), hm.text i hi]

/-- Two bytes are taken back, whichever they are. -/
theorem closed_cancelled {m : Machine State Store} (hm : Logged m) (before : ℕ)
    (hlt : m.state.outCur - 2 < m.store.out.length) : Closed (cancelled m before) := by
  refine ⟨logged_wrote hm hlt ?_ fun i hi => ?_, fun _ => lastByte_cons_self⟩
  · simp only [wrote, replay, List.length_take, hm.length]
    omega
  · simp only [wrote, replay]
    rw [lastByte_cons_of_ne (Nat.ne_of_gt hi), hm.text i (by omega), hm.length,
      List.getElem?_take_of_lt hi]

/-! ### `Append` -/

/-- No fault is promised; `Q` holds of a result. -/
abbrev Partly {α : Type} (Q : α → Machine State Store → Prop)
    (r : Except Fault (α × Machine State Store)) : Prop := Outcome (fun _ => True) Q r

theorem Partly.bind {α β : Type} {Q : α → Machine State Store → Prop}
    {Q' : β → Machine State Store → Prop} {f : Parser w α} {k : α → Parser w β}
    {m : Machine State Store} (hf : Partly Q (f m)) (hk : ∀ a m', Q a m' → Partly Q' (k a m')) :
    Partly Q' ((f >>= k) m) := Outcome.bind hf hk

/-- What the loop of `Append` does. -/
structure Loops (m m' : Machine State Store) : Prop where
  cursor_eq : m'.state.mangledCur = m.state.mangledCur
  ops : m.store.ops <:+ m'.store.ops
  keeps : Logged m → Logged m'

theorem appendLoop_loops (str : Text) :
    ∀ (n i : ℕ) (m : Machine State Store),
      Partly (fun _ => Loops m) (appendLoop (w := w) str n i m)
  | 0, _, _ => ⟨rfl, List.suffix_refl _, id⟩
  | n + 1, i, m => by
    by_cases hroom : m.store.out.length - m.state.outCur > 1
    · rcases get_cases (w := w) str i m with ⟨e, hget⟩ | ⟨b, hget⟩
      · rw [appendLoop_error hroom hget]
        trivial
      · rw [appendLoop_step hroom hget]
        refine (appendLoop_loops str n (i + 1) (emitted m b)).mono fun _ m' h => ?_
        have hops : m.store.ops <:+ (emitted m b).store.ops := List.suffix_cons _ _
        exact ⟨h.cursor_eq, hops.trans h.ops, fun hm => h.keeps (logged_emitted hm b (by omega))⟩
    · rw [appendLoop_full hroom]
      exact ⟨rfl, List.suffix_refl _, fun hm =>
        ⟨hm.buffer, hm.ordered, hm.sublist, hm.length, hm.text⟩⟩

/-- An output function leaves the cursor of the mangled name alone. -/
def Prints (w : CString) (m m' : Machine State Store) : Prop :=
  Follows w m m' ∧ m'.state.mangledCur = m.state.mangledCur

theorem append_prints (str : Text) {m : Machine State Store}
    (hcur : m.state.mangledCur ≤ w.length) :
    Partly (fun _ => Prints w m) (append (w := w) str m) := by
  have hloop := appendLoop_loops (w := w) str str.length 0 m
  rcases hrun : appendLoop (w := w) str str.length 0 m with e | ⟨⟨⟩, m'⟩ <;>
    rw [hrun] at hloop
  · rw [append_error hrun]
    trivial
  · rw [append_run hrun]
    have hcur' : m'.state.mangledCur ≤ w.length := hloop.cursor_eq.symm ▸ hcur
    split
    · rename_i ho
      refine ⟨⟨hcur', hloop.ops, fun hm => ⟨hloop.keeps hm.toLogged, fun hno => ?_⟩⟩,
        hloop.cursor_eq⟩
      exact absurd (hno.symm.trans ho) Bool.false_ne_true
    · split
      · rename_i hlt
        have hops : m'.store.ops <:+ (terminated m').store.ops := List.suffix_cons _ _
        exact ⟨⟨hcur', hloop.ops.trans hops, fun hm =>
          closed_terminated (hloop.keeps hm.toLogged) hlt⟩, hloop.cursor_eq⟩
      · trivial

/-! ### The output functions -/

theorem prints_refl {m : Machine State Store} (hcur : m.state.mangledCur ≤ w.length) :
    Prints w m m := ⟨(keeping w).rel_refl hcur, rfl⟩

theorem Prints.trans {m₁ m₂ m₃ : Machine State Store} (h : Prints w m₁ m₂)
    (h' : Prints w m₂ m₃) : Prints w m₁ m₃ := ⟨h.1.trans h'.1, h'.2.trans h.2⟩

theorem separateAngles_prints (str : Text) {m : Machine State Store}
    (hcur : m.state.mangledCur ≤ w.length) :
    Partly (fun _ => Prints w m) (separateAngles (w := w) str m) := by
  rcases get_cases (w := w) str 0 m with ⟨e, hget⟩ | ⟨b, hget⟩
  · rw [separateAngles, bind_error hget]
    trivial
  · rw [separateAngles_run hget]
    split
    · rcases hread : readOut (w := w) (m.state.outCur - 1) m with e | ⟨c, m₁⟩
      · rw [bind_error hread]
        trivial
      · obtain rfl := readOut_machine hread
        rw [bind_ok hread]
        split
        · exact append_prints _ hcur
        · exact prints_refl hcur
    · exact prints_refl hcur

theorem prints_named {m m' : Machine State Store} (h : Prints w m m') (start length : ℕ) :
    Prints w m (named m' start length) :=
  h.trans ⟨SameText.follows ⟨h.1.cursor_le, rfl, rfl, rfl, rfl, id⟩, rfl⟩

theorem appendName_prints (str : Text) {m : Machine State Store}
    (hcur : m.state.mangledCur ≤ w.length) :
    Partly (fun _ => Prints w m) (appendName (w := w) str m) := by
  have happend := append_prints str hcur
  rcases hrun : append (w := w) str m with e | ⟨⟨⟩, m'⟩ <;> rw [hrun] at happend
  · rw [appendName, saving_run, bind_error hrun]
    trivial
  · rcases get_cases (w := w) str 0 m' with ⟨e, hget⟩ | ⟨b, hget⟩
    · rw [appendName, saving_run, bind_ok hrun, saving_run]
      split
      · rw [bind_error hget]
        trivial
      · exact happend
    · rw [appendName_run hrun hget]
      change Prints w m _
      split
      · exact prints_named happend _ _
      · exact happend

theorem maybeAppendWithLength_prints (str : Text) {m : Machine State Store}
    (hcur : m.state.mangledCur ≤ w.length) :
    Partly (fun _ => Prints w m) (maybeAppendWithLength (w := w) str m) := by
  rw [maybeAppendWithLength, saving_run]
  split
  · refine (separateAngles_prints str hcur).bind fun _ m₁ h₁ => ?_
    refine (appendName_prints str h₁.1.cursor_le).bind fun _ m₂ h₂ => ?_
    exact h₁.trans h₂
  · exact prints_refl hcur

theorem appendAll_prints :
    ∀ (texts : List String) (m : Machine State Store), m.state.mangledCur ≤ w.length →
      Partly (fun _ => Prints w m) (appendAll (w := w) texts m)
  | [], _, hcur => prints_refl hcur
  | text :: texts, m, hcur => by
    refine Partly.bind (maybeAppendWithLength_prints (.bytes (bytes text)) hcur) fun b m₁ h₁ => ?_
    cases b with
    | false => exact h₁
    | true => exact (appendAll_prints texts m₁ h₁.1.cursor_le).mono fun _ _ h₂ => h₁.trans h₂

/-! ### The primitives keep the frame -/

variable {s : Bool}

/-- Progress is trivial here, so a step is all there is to show. -/
theorem post_of_follows {m m' : Machine State Store} (b : Bool) (h : Follows w m m') :
    (keeping w).Post s m b m' := ⟨h, fun _ _ => trivial⟩

theorem follows_moved {m : Machine State Store} {k : ℕ}
    (hk : m.state.mangledCur + k ≤ w.length) : Follows w m (moved m k) :=
  SameText.follows ⟨hk, rfl, rfl, rfl, rfl, id⟩

theorem keeping_scan {f : Parser w Bool} {post : Bool → ℕ → Prop} (hf : Scans f post) :
    (keeping w).Runs s f := by
  intro m hm
  obtain ⟨b, k, hrun, hk, -⟩ := hf m hm
  rw [hrun]
  exact post_of_follows b (follows_moved hk)

theorem keeping_scanBind {α : Type} {f : Parser w α} {post : α → ℕ → Prop}
    {k : α → Parser w Bool} (hf : Scans f post)
    (hk : ∀ a i, post a i → (keeping w).Runs s (k a)) :
    (keeping w).Runs s (f >>= k : Parser w Bool) := by
  intro m hm
  obtain ⟨a, i, hrun, hi, hpost⟩ := hf m hm
  rw [bind_ok hrun]
  exact (hk a i hpost).after hm (follows_moved hi)

theorem keeping_control {g : State → State} (hg : Control g) :
    (keeping w).Runs s (modify g : Parser w Bool) := by
  intro m hm
  obtain ⟨nestLevel, append, skipSeparator, pendingRefQualifier, h⟩ := hg m.state
  rw [modify_run, h]
  exact post_of_follows true (SameText.follows ⟨hm, rfl, rfl, rfl, rfl, id⟩)

theorem keeping_text (text : List Byte) :
    (keeping w).Runs s (maybeAppendWithLength (.bytes text) : Parser w Bool) := fun _ hm =>
  (maybeAppendWithLength_prints (.bytes text) hm).mono fun b _ h => post_of_follows b h.1

theorem prints_advance {m m' : Machine State Store} (h : Prints w m m') (count : ℕ) :
    Partly ((keeping w).Post s m) (advance (w := w) count m') := by
  by_cases hle : m'.state.mangledCur + count ≤ w.length
  · rw [advance_run hle]
    exact post_of_follows true (h.1.trans (follows_moved hle))
  · rw [advance, if_neg hle]
    trivial

theorem keeping_accept {α : Type} {found : Parser w (Option α)} {length : α → ℕ}
    {texts : α → List String} (hf : Finds found length texts) :
    (keeping w).Runs s (acceptAbbrev found length texts) := by
  intro m hm
  obtain ⟨p, hrun, hp⟩ := hf m hm
  rw [acceptAbbrev, bind_ok hrun]
  cases p with
  | none => exact Frame.runs_pure_false m hm
  | some p =>
    refine Partly.bind (appendAll_prints (texts p) m hm) fun b m₁ h₁ => ?_
    cases b with
    | false => exact post_of_follows false h₁.1
    | true => exact prints_advance h₁ (length p)

theorem keeping_identifier (length : ℤ) :
    (keeping w).Runs s (parseIdentifier (w := w) length) := by
  intro m hm
  rw [parseIdentifier, bind_ok (atLeastNumCharsRemaining_run _ _)]
  split
  · exact Frame.runs_pure_false m hm
  · rw [bind_ok (identifierIsAnonymousNamespace_run _ _)]
    split
    · exact Partly.bind (maybeAppendWithLength_prints _ hm) fun _ _ h => prints_advance h _
    · exact Partly.bind (maybeAppendWithLength_prints _ hm) fun _ _ h => prints_advance h _

theorem keeping_prevName (lead : List String) :
    (keeping w).Runs s (appendPrevName (w := w) lead) := by
  intro m hm
  rw [appendPrevName, saving_run]
  split
  · refine Partly.bind (appendAll_prints lead m hm) fun b m₁ h₁ => ?_
    cases b with
    | false => exact post_of_follows false h₁.1
    | true =>
      exact (maybeAppendWithLength_prints _ h₁.1.cursor_le).mono fun b _ h₂ =>
        post_of_follows b (h₁.1.trans h₂.1)
  · exact Frame.runs_pure_false m hm

theorem keeping_maybeAppendSeparator :
    (keeping w).Runs s (maybeAppendSeparator (w := w)) := by
  intro m hm
  rw [maybeAppendSeparator, saving_run]
  split
  · exact keeping_control
      (fun st => ⟨st.nestLevel, st.append, false, st.pendingRefQualifier, rfl⟩) m hm
  · split
    · exact keeping_text _ m hm
    · exact post_of_follows true ((keeping w).rel_refl hm)

theorem follows_cancelled {m : Machine State Store} (hcur : m.state.mangledCur ≤ w.length)
    (before : ℕ) (hlt : m.state.outCur - 2 < m.store.out.length) :
    Follows w m (cancelled m before) :=
  ⟨hcur, List.suffix_cons _ _, fun hm => closed_cancelled hm.toLogged before hlt⟩

theorem keeping_separated {f : Parser w Bool} (hf : (keeping w).Runs s f) :
    (keeping w).Runs s (separated f) := by
  intro m hm
  have hboth := Frame.runs_and (s := s) keeping_maybeAppendSeparator hf
  refine Partly.bind (hboth m hm) fun b m₁ h₁ => ?_
  cases b with
  | true => exact post_of_follows true h₁.1
  | false =>
    by_cases hcond : (m₁.state.nestLevel ≥ 1 && m₁.state.append && m₁.state.outCur ≥ 2) = true
    · by_cases hlt : m₁.state.outCur - 2 < m₁.store.out.length
      · have hrun := maybeCancelLastSeparator_run (w := w) m.state.outCur hcond hlt
        rw [if_neg Bool.false_ne_true, bind_ok hrun]
        exact post_of_follows false (h₁.1.trans (follows_cancelled h₁.1.cursor_le _ hlt))
      · rw [if_neg Bool.false_ne_true, bind_error (maybeCancelLastSeparator_error hcond hlt)]
        trivial
    · rw [if_neg Bool.false_ne_true, bind_ok (maybeCancelLastSeparator_skip hcond)]
      exact post_of_follows false h₁.1

theorem follows_setLevel {m : Machine State Store} (hm : m.state.mangledCur ≤ w.length)
    (value : ℕ) (level : Level) :
    Follows w m ⟨m.state.setLevel value level, m.store⟩ := by
  cases level <;> exact SameText.follows ⟨hm, rfl, rfl, rfl, rfl, id⟩

theorem keeping_guardLevel {level : Level} {f : Parser w Bool}
    (hf : (keeping w).Runs s f) : (keeping w).Runs s (guardLevel level f) := by
  intro m hm
  by_cases hlevel : m.state.level level < maxLevel level
  · have henter : enterLevel (w := w) level m = .ok (true, entered m level) :=
      if_pos hlevel
    rw [guardLevel, bind_ok henter, if_pos rfl]
    have hentered := follows_setLevel hm (m.state.level level + 1) level
    refine Partly.bind (hf (entered m level) hentered.cursor_le) fun b m₁ h₁ => ?_
    by_cases hleft : 0 < m₁.state.level level
    · have hleave : leaveLevel (w := w) level m₁ = .ok ((), left m₁ level) := if_pos hleft
      rw [bind_ok hleave]
      exact post_of_follows b ((hentered.trans h₁.1).trans (follows_setLevel h₁.1.cursor_le _ _))
    · have hleave : leaveLevel (w := w) level m₁ = .error .levelUnderflow := if_neg hleft
      rw [bind_error hleave]
      trivial
  · have henter : enterLevel (w := w) level m = .ok (false, m) := if_neg hlevel
    rw [guardLevel, bind_ok henter, if_neg Bool.false_ne_true]
    exact Frame.runs_pure_false m hm

theorem keeping_countStep : (keeping w).Runs s (countStep (w := w)) := by
  intro m hm
  rw [countStep]
  split
  · exact post_of_follows true (SameText.follows ⟨hm, rfl, rfl, rfl, rfl, id⟩)
  · exact Frame.runs_pure_false m hm

/-! ### Every built function keeps the frame -/

theorem Runs.keeping_strict {f : Parser w Bool} (h : (keeping w).Runs false f) :
    (keeping w).Runs s f := fun m hm =>
  (h m hm).mono fun b _ hpost => post_of_follows b hpost.1

theorem Built.runs_keeping {n : ℕ} {f : Parser w Bool} (h : Built n s f) :
    (keeping w).Runs true f := by
  induction h with
  | fail => exact Frame.runs_pure_false
  | succeed => exact Runs.keeping_strict Frame.runs_pure_true
  | scan hf => exact keeping_scan hf
  | control hg => exact keeping_control hg
  | text _ => exact keeping_text _
  | identifier hs => exact keeping_identifier _
  | accept hf => exact keeping_accept hf
  | prevName _ => exact keeping_prevName _
  | separated hf ih => exact keeping_separated ih
  | and_left hf hg ihf ihg => exact Frame.runs_and ihf ihg
  | and_right hf hg ihf ihg => exact Frame.runs_and ihf ihg
  | or hf hg ihf ihg => exact Frame.runs_or ihf ihg
  | attempt hf ih => exact Frame.runs_attempt ih
  | attemptTwice hc hf hg ihc ihf ihg => exact Frame.runs_attemptTwice ihc ihf.weaken ihg
  | branch hc hf hg ihc ihf ihg => exact Frame.runs_branch ihc ihf ihg
  | optional hf ih => exact Runs.keeping_strict (Frame.runs_optional ih)
  | zeroOrMore hf ih =>
    exact Runs.keeping_strict (Frame.runs_zeroOrMore ih (.inl trivial))
  | parseUntil hf ih =>
    exact Runs.keeping_strict (Frame.runs_repeatUntil (keeping_scan (scans_stop _)) ih
      (.inl trivial) (.inl trivial))
  | saving hk ih => exact Frame.runs_saving ih
  | scanBind hf hk ih => exact keeping_scanBind hf ih
  | guardLevel hlevel hf ih => exact keeping_guardLevel ih
  | guardDepth hf ih => exact keeping_guardLevel (Frame.runs_and (s := true) keeping_countStep ih)
  | exhausted => exact fun _ _ => trivial
  | weaken hf ih => exact ih

/-! ### The entry point -/

/-- The initial machine has made one write, and keeps it: the terminator of the empty text. -/
theorem closed_initMachine {out : List Byte} (h : 0 < out.length) : Closed (initMachine out) := by
  have hordered : Ordered [⟨0, 0, .terminate⟩] :=
    ⟨fun write hmem => by rw [List.mem_singleton.mp hmem]; exact Nat.one_pos,
      List.pairwise_singleton _ _⟩
  refine ⟨⟨fun i write hlast => ?_, hordered, List.Sublist.refl _, rfl, nofun⟩,
    fun _ => lastByte_cons_self⟩
  obtain ⟨hmem, hpos⟩ := lastAt_mem hlast
  obtain rfl := List.mem_singleton.mp hmem
  subst hpos
  exact List.getElem?_set_self (by simpa using h)

/-- A successful run only ever leaves the machine that the parse left. -/
theorem demangle_eq_true {out : List Byte} (h : 0 < out.length) {m : Machine State Store}
    (hrun : demangle w out = .ok (true, m)) :
    Follows w (initMachine out) m ∧ m.state.overflowed = false := by
  let _ := forwardAt w parseFuel
  have _ := forwardBuilt_forwardAt w parseFuel
  have hbuilt : Built parseFuel false (parseTopLevelMangledName (w := w)) :=
    built_parseTopLevelMangledName
  have hparse := hbuilt.runs_keeping (initMachine out) (Nat.zero_le _)
  have hall : Partly (fun accepted m => accepted = true →
      Follows w (initMachine out) m ∧ m.state.overflowed = false) (demangle w out) := by
    rw [demangle, if_neg (Nat.pos_iff_ne_zero.mp h)]
    refine Partly.bind hparse fun accepted m hm => ?_
    have hfailed : Partly (fun accepted m' => accepted = true →
        Follows w (initMachine out) m' ∧ m'.state.overflowed = false)
        ((writeOut (w := w) 0 .terminate >>= fun _ => (pure false : Parser w Bool)) m) := by
      by_cases hlt : 0 < m.store.out.length
      · rw [bind_ok (writeOut_run .terminate hlt)]
        exact fun ht => absurd ht Bool.false_ne_true
      · rw [bind_error (writeOut_error .terminate hlt)]
        trivial
    split
    · rw [saving_run]
      split
      · rename_i ho
        exact fun _ => ⟨hm.1, by simpa using ho⟩
      · exact hfailed
    · exact hfailed
  rw [hrun] at hall
  exact hall rfl

/-- The buffer holds a string, the bytes up to the output cursor. It is the text of the successful
derivation, and neither it nor its terminator holds a byte that the caller has left there. -/
structure HoldsText (m : Machine State Store) : Prop where
  cur_lt : m.state.outCur < m.store.out.length
  terminator : (outBytes m)[m.state.outCur]? = some 0
  string : (outBytes m).takeWhile (· != 0) = (outBytes m).take m.state.outCur
  text : (outBytes m).take m.state.outCur = replay m.state.kept
  written : ∀ i ≤ m.state.outCur, WrittenAt m.store.out i

/-- Each write of an abandoned alternative to an offset of the text or of its terminator is followed
by another write to that offset, or repeats the byte that the derivation has last written there. -/
def Settled (m : Machine State Store) : Prop :=
  ∀ write ∈ m.store.ops, write ∉ m.state.kept → write.pos ≤ m.state.outCur →
    (∃ later ∈ m.store.ops, later.pos = write.pos ∧ write.time < later.time) ∨
      lastByte write.pos m.state.kept = some write.op.byte

instance (m : Machine State Store) : Decidable (Settled m) :=
  inferInstanceAs (Decidable (∀ write ∈ m.store.ops, write ∉ m.state.kept →
    write.pos ≤ m.state.outCur →
      (∃ later ∈ m.store.ops, later.pos = write.pos ∧ write.time < later.time) ∨
        lastByte write.pos m.state.kept = some write.op.byte))

/-- The derivation has copied no NUL that it has not taken back. -/
def CopiesNoNul (m : Machine State Store) : Prop := 0 ∉ replay m.state.kept

instance (m : Machine State Store) : Decidable (CopiesNoNul m) :=
  inferInstanceAs (Decidable (0 ∉ replay m.state.kept))

section Result

variable {m : Machine State Store} (hm : Closed m) (ho : m.state.overflowed = false)
include hm ho

/-- At each offset up to the cursor the derivation has written the byte of the text, or NUL. -/
theorem lastByte_kept {i : ℕ} (hi : i ≤ m.state.outCur) :
    lastByte i m.state.kept = (replay m.state.kept ++ [0])[i]? := by
  rcases Nat.lt_or_eq_of_le hi with hlt | rfl
  · rw [hm.text i hlt, List.getElem?_append_left (hm.length ▸ hlt)]
  · rw [hm.closed ho, ← hm.length, List.getElem?_concat_length]

theorem exists_lastByte_kept {i : ℕ} (hi : i ≤ m.state.outCur) :
    ∃ b, lastByte i m.state.kept = some b := by
  have hlt : i < (replay m.state.kept ++ [0]).length := by
    rw [List.length_append, hm.length, List.length_singleton]
    omega
  exact ⟨_, (lastByte_kept hm ho hi).trans (List.getElem?_eq_getElem hlt)⟩

/-- The run has written at each offset up to the cursor, and the buffer holds the last write. -/
theorem exists_last {i : ℕ} (hi : i ≤ m.state.outCur) : ∃ write,
    lastAt i m.store.ops = some write ∧ m.store.out[i]? = some ⟨write.op.byte, true⟩ := by
  obtain ⟨b, hb⟩ := exists_lastByte_kept hm ho hi
  obtain ⟨write, hlast⟩ := exists_lastAt_of_sublist hm.sublist hb
  exact ⟨write, hlast, hm.buffer i write hlast⟩

/-- The text and its terminator are in place exactly if the abandoned writes have spared them. -/
theorem settled_iff : Settled m ↔
    ∀ i ≤ m.state.outCur, (outBytes m)[i]? = (replay m.state.kept ++ [0])[i]? := by
  constructor
  · intro hsettled i hi
    obtain ⟨write, hlast, hcell⟩ := exists_last hm ho hi
    rw [← lastByte_kept hm ho hi, outBytes, List.getElem?_map, hcell, Option.map_some]
    obtain ⟨hmem, rfl⟩ := lastAt_mem hlast
    by_cases hkept : write ∈ m.state.kept
    · rw [lastByte, lastAt_of_mem hm.sublist hm.ordered.pairwise hlast hkept, Option.map_some]
    · rcases hsettled write hmem hkept hi with ⟨later, hlater, hpos, htime⟩ | hbyte
      · -- the write is the newest, so none is later
        rcases eq_or_lt_of_lastAt hm.ordered.pairwise hlast hlater hpos with rfl | hlt
        · exact absurd htime (Nat.lt_irrefl _)
        · exact absurd htime (Nat.lt_asymm hlt)
      · exact hbyte.symm
  · intro hplace write hmem _ hi
    obtain ⟨newest, hlast, hcell⟩ := exists_last hm ho hi
    rcases eq_or_lt_of_lastAt hm.ordered.pairwise hlast hmem rfl with rfl | hlt
    · refine .inr ?_
      rw [lastByte_kept hm ho hi, ← hplace _ hi, outBytes, List.getElem?_map, hcell,
        Option.map_some]
    · exact .inl ⟨newest, (lastAt_mem hlast).1, (lastAt_mem hlast).2, hlt⟩

end Result

theorem takeWhile_ne_zero {text rest : List Byte} (h : 0 ∉ text) :
    (text ++ 0 :: rest).takeWhile (· != 0) = text := by
  have hall : ∀ b ∈ text, (b != 0) = true := fun b hb =>
    bne_iff_ne.mpr fun hz => h (hz ▸ hb)
  rw [List.takeWhile_append_of_pos hall, List.takeWhile_cons_of_neg (by decide), List.append_nil]

theorem holdsText_iff {m : Machine State Store} (hm : Closed m)
    (ho : m.state.overflowed = false) : HoldsText m ↔ Settled m ∧ CopiesNoNul m := by
  rw [settled_iff hm ho]
  constructor
  · intro h
    refine ⟨fun i hi => ?_, fun hz => ?_⟩
    · rcases Nat.lt_or_eq_of_le hi with hlt | rfl
      · rw [List.getElem?_append_left (hm.length ▸ hlt), ← h.text, List.getElem?_take_of_lt hlt]
      · rw [h.terminator, ← hm.length, List.getElem?_concat_length]
    · rw [← h.text, ← h.string] at hz
      exact absurd (List.all_eq_true.mp List.all_takeWhile 0 hz) (by decide)
  · rintro ⟨hplace, hnul⟩
    obtain ⟨_, -, hcell⟩ := exists_last hm ho (Nat.le_refl _)
    have hlt := (List.getElem?_eq_some_iff.mp hcell).1
    have hterminator : (outBytes m)[m.state.outCur]? = some 0 := by
      rw [hplace _ (Nat.le_refl _), ← hm.length, List.getElem?_concat_length]
    have htext : (outBytes m).take m.state.outCur = replay m.state.kept := by
      refine List.ext_getElem? fun i => ?_
      by_cases hi : i < m.state.outCur
      · rw [List.getElem?_take_of_lt hi, hplace i (Nat.le_of_lt hi),
          List.getElem?_append_left (hm.length ▸ hi)]
      · rw [List.getElem?_eq_none (by rw [List.length_take]; omega),
          List.getElem?_eq_none (by rw [hm.length]; omega)]
    obtain ⟨hlt', hzero⟩ := List.getElem?_eq_some_iff.mp hterminator
    have hsplit : outBytes m = replay m.state.kept ++ 0 :: (outBytes m).drop
        (m.state.outCur + 1) := by
      rw [← htext, ← hzero, ← List.drop_eq_getElem_cons hlt', List.take_append_drop]
    refine ⟨hlt, hterminator, ?_, htext, fun i hi => ?_⟩
    · rw [htext, hsplit]
      exact takeWhile_ne_zero hnul
    · obtain ⟨_, -, hcell⟩ := exists_last hm ho hi
      exact ⟨_, hcell, rfl⟩

/-- `Settled` and `CopiesNoNul` are about the writes, and not about the buffer. -/
theorem spared_congr {m m' : Machine State Store} (hstate : m'.state = m.state)
    (hops : m'.store.ops = m.store.ops) (h : Settled m ∧ CopiesNoNul m) :
    Settled m' ∧ CopiesNoNul m' := by
  rw [Settled, CopiesNoNul, hstate, hops]
  exact h

/-- Reading `w` into a buffer of the given size, the demangler succeeds and none of the writes that
it abandons spoils the text; nor does the text hold a NUL. The bytes that are in the buffer before
do not matter. -/
def Undisturbed (w : CString) (size : ℕ) : Prop :=
  ∃ m, demangle w (List.replicate size 0) = .ok (true, m) ∧ Settled m ∧ CopiesNoNul m

theorem undisturbed_iff {out : List Byte} {m : Machine State Store}
    (hrun : demangle w out = .ok (true, m)) :
    Undisturbed w out.length ↔ Settled m ∧ CopiesNoNul m := by
  have hlength : out.length = (List.replicate out.length (0 : Byte)).length :=
    List.length_replicate.symm
  obtain ⟨m', hrun', hstate, hops⟩ := demangle_sameWrites hlength hrun
  constructor
  · rintro ⟨m₁, hrun₁, h⟩
    obtain rfl : m' = m₁ := by
      rw [hrun', Except.ok.injEq, Prod.mk.injEq] at hrun₁
      exact hrun₁.2
    exact spared_congr hstate.symm hops.symm h
  · exact fun h => ⟨m', hrun', spared_congr hstate hops h⟩

/-- Whether a run succeeds with a machine that passes `p`. -/
def succeedsWith (r : Except Fault (Bool × Machine State Store)) (p : Machine State Store → Bool) :
    Bool :=
  match r with
  | .ok (true, m) => p m
  | _ => false

theorem exists_of_succeedsWith {r : Except Fault (Bool × Machine State Store)}
    {p : Machine State Store → Bool} (h : succeedsWith r p = true) :
    ∃ m, r = .ok (true, m) ∧ p m = true := by
  rcases r with e | ⟨_ | _, m⟩
  · cases h
  · cases h
  · exact ⟨m, rfl, h⟩

set_option maxRecDepth 10000 in
/-- A constructor's name can be copied from behind the cursor, after the separator taken back was
not one: the text is then a NUL and the letter `y`. -/
example : succeedsWith (demangle (.ofString "_ZN2xyDtLUlvE_0EEDtLNC1E0EEE") (List.replicate 16 1))
    (fun m => decide (Settled m ∧ replay m.state.kept = [0, 'y'.toUInt8])) = true := by
  decide +kernel

end Demangle

end NgLog
