import Mathlib.Data.List.Forall2
import NgLog.Style.Writer

/-!
# What a history of styles shows

A message is streamed while styles are pushed and popped at its current length, and `Flush` closes
the recorder at its end. Each byte should be shown with the innermost style that was open when it
was streamed. The recorder keeps this as long as `Close` finds at most one style open, or finds the
others suspended where it closes: it ends all open styles at the same offset, but, unlike `Pop`,
without moving the start of the style outside the one it ends, so that the spans of nested styles
overlap and their text is written again.

## Main definitions

* `openStyles`, `styleAt` — the styles that the calls mean
* `InOrder` — calls at non-decreasing offsets
* `Tracks` — the invariant that relates the recorder to the styles
* `Overlaps` — the calls of `Close` that record overlapping spans

## Main results

* `tracks_step` — a call that does not overlap keeps the invariant
* `body_shows_styles_iff` — exactly when `WriteStyledLogBody` shows what it should
* `body_repeats_text` — a history for which it does not
-/

namespace NgLog

namespace Style

open Transition (run Along)

variable {Color : Type}

/-! ### What the calls mean -/

/-- The open styles after one more call, the innermost first. -/
def applyStyle (styles : List (TextAttributes Color)) : Call Color → List (TextAttributes Color)
  | .reset => []
  | .push _ attributes => attributes :: styles
  | .pop _ => styles.tail
  | .close _ => []

/-- The open styles after the calls. -/
def openStyles (calls : List (Call Color)) : List (TextAttributes Color) :=
  calls.foldl applyStyle []

/-- The length of the text when the call is made. -/
def Call.offset : Call Color → ℕ
  | .reset => 0
  | .push offset _ => offset
  | .pop offset => offset
  | .close offset => offset

/-- The innermost style when byte `i` is streamed, which is after the calls at offsets up to `i`. -/
def styleAt (calls : List (Call Color)) (i : ℕ) : Option (TextAttributes Color) :=
  (openStyles (calls.filter fun c => c.offset ≤ i)).head?

/-- The calls are those of a message under construction, at non-decreasing offsets from `first` to
`last`. -/
def InOrder (last : ℕ) : ℕ → List (Call Color) → Prop
  | first, [] => first ≤ last
  | first, c :: calls =>
    c ≠ .reset ∧ first ≤ c.offset ∧ InOrder last c.offset calls

theorem InOrder.le {last : ℕ} : ∀ {first : ℕ} {calls : List (Call Color)},
    InOrder last first calls → first ≤ last
  | _, [], h => h
  | _, _ :: _, h => Nat.le_trans h.2.1 h.2.2.le

theorem InOrder.ne_reset {last : ℕ} : ∀ {first : ℕ} {calls : List (Call Color)},
    InOrder last first calls → ∀ c ∈ calls, c ≠ .reset
  | _, [], _ => nofun
  | _, _ :: _, h => List.forall_mem_cons.mpr ⟨h.1, h.2.2.ne_reset⟩

/-- `Flush` closes the recorder at the end of the text. -/
theorem InOrder.close {last : ℕ} : ∀ {first : ℕ} {calls : List (Call Color)},
    InOrder last first calls → InOrder last first (calls ++ [Call.close last])
  | _, [], h => ⟨nofun, h, Nat.le_refl _⟩
  | _, _ :: _, h => ⟨h.1, h.2.1, h.2.2.close⟩

theorem openStyles_append (calls : List (Call Color)) (c : Call Color) :
    openStyles (calls ++ [c]) = applyStyle (openStyles calls) c := by
  rw [openStyles, List.foldl_append]
  rfl

/-- A call does not change the style of the text before it. -/
theorem styleAt_append_of_lt {calls : List (Call Color)} {c : Call Color} {i : ℕ}
    (h : i < c.offset) : styleAt (calls ++ [c]) i = styleAt calls i := by
  have hlast : ([c].filter fun c => c.offset ≤ i) = [] :=
    List.filter_eq_nil_iff.mpr fun d hd => by
      rw [List.mem_singleton.mp hd]
      simpa using h
  rw [styleAt, List.filter_append, hlast, List.append_nil, styleAt]

/-- After all calls, the innermost open style is that of the text to come. -/
theorem styleAt_of_le {calls : List (Call Color)} {i : ℕ} (h : ∀ c ∈ calls, c.offset ≤ i) :
    styleAt calls i = (openStyles calls).head? := by
  rw [styleAt, List.filter_eq_self.mpr fun c hc => by simpa using h c hc]

/-! ### The invariant -/

/-- The stored attributes are a copy of those pushed. -/
def CopyOf (r : Recorder Color) (stored : StoredAttributes Color)
    (attributes : TextAttributes Color) : Prop :=
  stored.color = attributes.color ∧
    Option.Rel (fun offset (uri : Uri) => (offset, uri.text) ∈ r.uris) stored.hyperlink
      attributes.hyperlink

/-- The offset up to which the spans are final: the start of the innermost style. -/
def settled (r : Recorder Color) (now : ℕ) : ℕ :=
  match r.active with
  | [] => now
  | current :: _ => current.start

/-- The spans end before `upTo`, and give the text before it the styles that the calls mean. -/
structure ShowsUpTo (calls : List (Call Color)) (r : Recorder Color) (upTo : ℕ) : Prop where
  ordered : Span.Ordered r.spans
  before : ∀ s ∈ r.spans, s.stop ≤ upTo
  shows : ∀ i < upTo, Option.Rel (CopyOf r) (Span.lookup r.spans i) (styleAt calls i)

/-- After the calls, the last of them at `now` or before, the recorder holds the styles of the text
so far. -/
structure Tracks (calls : List (Call Color)) (r : Recorder Color) (now : ℕ) : Prop where
  enabled : r.disabled = false
  offsets : ∀ c ∈ calls, c.offset ≤ settled r now
  active : List.Forall₂ (fun style => CopyOf r style.attributes) r.active (openStyles calls)
  starts : r.active.Pairwise fun inner outer => outer.start ≤ inner.start
  settled_le : settled r now ≤ now
  shown : ShowsUpTo calls r (settled r now)
  /-- The text since the outermost of several styles was suspended is covered. -/
  covered : ∀ current outer, r.active = current :: outer → ∀ outermost ∈ outer.getLast?,
    outermost.start < current.start → ∃ s ∈ r.spans.getLast?, s.stop = current.start

theorem settled_nil {r : Recorder Color} (h : r.active = []) (now : ℕ) : settled r now = now := by
  rw [settled, h]

theorem settled_cons {r : Recorder Color} {current : ActiveStyle Color}
    {outer : List (ActiveStyle Color)} (h : r.active = current :: outer) (now : ℕ) :
    settled r now = current.start := by
  rw [settled, h]

/-- More text is streamed: without an open style it has none. -/
theorem Tracks.later {calls : List (Call Color)} {r : Recorder Color} {now later : ℕ}
    (h : Tracks calls r now) (hle : now ≤ later) : Tracks calls r later := by
  rcases hactive : r.active with _ | ⟨current, outer⟩
  · have hnow := settled_nil hactive now
    have hlater := settled_nil hactive later
    have hopen : openStyles calls = [] := by
      have := h.active
      rw [hactive] at this
      exact List.forall₂_nil_left_iff.mp this
    refine ⟨h.enabled, fun c hc => ?_, h.active, h.starts, Nat.le_of_eq hlater,
      ⟨h.shown.ordered, fun s hs => ?_, fun i hi => ?_⟩, h.covered⟩
    · have := h.offsets c hc
      omega
    · have := h.shown.before s hs
      omega
    · by_cases hinow : i < now
      · exact h.shown.shows i (hnow.symm ▸ hinow)
      · rw [styleAt_of_le fun c hc => by have := h.offsets c hc; omega, hopen,
          Span.lookup_eq_none_of_stop_le fun s hs => by have := h.shown.before s hs; omega]
        exact .none
  · have hsettled : settled r later = settled r now := by
      rw [settled_cons hactive, settled_cons hactive]
    exact ⟨h.enabled, hsettled ▸ h.offsets, h.active, h.starts,
      hsettled ▸ Nat.le_trans h.settled_le hle, hsettled ▸ h.shown, h.covered⟩

/-! ### The span of the current style ends -/

/-- What `AddSpan` does to the spans. -/
theorem spans_of_addSpan {r r' : Recorder Color} {start stop : ℕ}
    {attributes : StoredAttributes Color} (h : r.addSpan start stop attributes = some r') :
    (stop ≤ start ∧ r' = r) ∨
      (start < stop ∧ r' = { r with spans := r.spans ++ [⟨start, stop, attributes⟩] }) := by
  rw [Recorder.addSpan] at h
  split at h
  · cases h
    exact .inl ⟨‹_›, rfl⟩
  · split at h
    · cases h
    · cases h
      exact .inr ⟨Nat.lt_of_not_le ‹_›, rfl⟩

/-- Ending the span of the current style shows it on the text since its start. -/
theorem Tracks.endSpan {calls : List (Call Color)} {r r' : Recorder Color} {now : ℕ}
    {current : ActiveStyle Color} {outer : List (ActiveStyle Color)} (h : Tracks calls r now)
    (hactive : r.active = current :: outer)
    (hadd : r.addSpan current.start now current.attributes = some r') :
    r'.disabled = false ∧ r'.active = r.active ∧ r'.uris = r.uris ∧ ShowsUpTo calls r' now ∧
      ∀ outermost ∈ outer.getLast?, outermost.start < now → ∃ s ∈ r'.spans.getLast?,
        s.stop = now := by
  have hsettled := settled_cons hactive now
  have hle := h.settled_le
  rcases spans_of_addSpan hadd with ⟨hnow, rfl⟩ | ⟨hnow, rfl⟩
  · have hstart : current.start = now := by omega
    refine ⟨h.enabled, rfl, rfl, ?_, fun outermost hlast hlt => ?_⟩
    · have := h.shown
      rwa [hsettled, hstart] at this
    · have := h.covered current outer hactive outermost hlast
      rw [hstart] at this
      exact this hlt
  · have hbefore : ∀ s ∈ r.spans, s.stop ≤ current.start := by
      rw [← hsettled]
      exact h.shown.before
    have hcurrent : Option.Rel (CopyOf r) (some current.attributes) (openStyles calls).head? := by
      have hstyles := h.active
      rw [hactive] at hstyles
      rcases hopen : openStyles calls with _ | ⟨style, styles⟩ <;> rw [hopen] at hstyles
      · cases hstyles
      · exact .some (List.forall₂_cons.mp hstyles).1
    refine ⟨h.enabled, rfl, rfl, ⟨Span.ordered_append h.shown.ordered hnow hbefore,
      fun s hs => ?_, fun i hi => ?_⟩, fun _ _ _ => ⟨_, List.getLast?_concat, rfl⟩⟩
    · rcases List.mem_append.mp hs with hs | hs
      · have := hbefore s hs
        omega
      · exact List.mem_singleton.mp hs ▸ Nat.le_refl _
    · by_cases histart : i < current.start
      · rw [Span.lookup_append_of_lt histart]
        exact h.shown.shows i (hsettled.symm ▸ histart)
      · rw [Span.lookup_append_mem hbefore ⟨Nat.le_of_not_lt histart, hi⟩,
          styleAt_of_le fun c hc => by have := h.offsets c hc; omega]
        exact hcurrent

/-! ### The calls keep the invariant -/

theorem CopyOf.mono {r r' : Recorder Color} {stored : StoredAttributes Color}
    {attributes : TextAttributes Color} (h : CopyOf r stored attributes)
    (huris : ∀ p ∈ r.uris, p ∈ r'.uris) : CopyOf r' stored attributes := by
  rcases stored with ⟨color, _ | offset⟩ <;> rcases attributes with ⟨color', _ | uri⟩
  · exact ⟨h.1, .none⟩
  · cases h.2
  · cases h.2
  · obtain ⟨hcolor, hlink⟩ := h
    cases hlink with
    | some hmem => exact ⟨hcolor, .some (huris _ hmem)⟩

/-- A call at `now` does not change the text before it, nor does a target that it stores. -/
theorem ShowsUpTo.append {calls : List (Call Color)} {r r' : Recorder Color} {c : Call Color}
    (h : ShowsUpTo calls r c.offset) (hspans : r'.spans = r.spans)
    (huris : ∀ p ∈ r.uris, p ∈ r'.uris) : ShowsUpTo (calls ++ [c]) r' c.offset := by
  refine ⟨hspans ▸ h.ordered, hspans ▸ h.before, fun i hi => ?_⟩
  rw [styleAt_append_of_lt hi, hspans]
  have hshows := h.shows i hi
  cases hlookup : Span.lookup r.spans i <;> cases hstyle : styleAt calls i <;>
    rw [hlookup, hstyle] at hshows
  · exact .none
  · cases hshows
  · cases hshows
  · cases hshows with
    | some hcopy => exact .some (hcopy.mono huris)

/-- The recorder has disabled itself. -/
structure Off (r : Recorder Color) : Prop where
  disabled : r.disabled = true
  spans : r.spans = []

theorem off_disable (r : Recorder Color) : Off r.disable := ⟨rfl, rfl⟩

/-- Before a new style starts, the current one ends. -/
theorem Tracks.suspend {calls : List (Call Color)} {r r' : Recorder Color} {now : ℕ}
    (h : Tracks calls r now) (hsuspend : r.suspend now = some r') :
    r'.disabled = false ∧ r'.uris = r.uris ∧ ShowsUpTo calls r' now ∧
      List.Forall₂ (fun style => CopyOf r' style.attributes) r'.active (openStyles calls) ∧
      r'.active.Pairwise (fun inner outer => outer.start ≤ inner.start) ∧
      (∀ style ∈ r'.active, style.start ≤ now) ∧
      ∀ outermost ∈ r'.active.getLast?, outermost.start < now → ∃ s ∈ r'.spans.getLast?,
        s.stop = now := by
  rcases hactive : r.active with _ | ⟨current, outer⟩
  · rw [Recorder.suspend, hactive] at hsuspend
    obtain rfl : r = r' := Option.some.inj hsuspend
    have hshown := h.shown
    rw [settled_nil hactive] at hshown
    refine ⟨h.enabled, rfl, hshown, h.active, h.starts, ?_, ?_⟩ <;> rw [hactive]
    · exact fun _ hs => absurd hs List.not_mem_nil
    · intro outermost hlast
      cases hlast
  · rw [Recorder.suspend, hactive] at hsuspend
    rcases hadd : r.addSpan current.start now current.attributes with _ | r₁
    · simp only [hadd, Option.bind_eq_bind, Option.bind_none] at hsuspend
      cases hsuspend
    · simp only [hadd, Option.bind_eq_bind, Option.bind_some] at hsuspend
      obtain rfl := Option.some.inj hsuspend
      obtain ⟨henabled, -, huris, hshown, hcovered⟩ := h.endSpan hactive hadd
      have hle := h.settled_le
      rw [settled_cons hactive] at hle
      have hcopies := h.active
      have hstarts := h.starts
      rw [hactive] at hcopies hstarts
      obtain ⟨houter, hstarts⟩ := List.pairwise_cons.mp hstarts
      have houter' (style) (hs : style ∈ outer) : style.start ≤ now :=
        Nat.le_trans (houter style hs) hle
      refine ⟨henabled, huris, ⟨hshown.ordered, hshown.before, hshown.shows⟩, ?_,
        List.pairwise_cons.mpr ⟨houter', hstarts⟩,
        List.forall_mem_cons.mpr ⟨Nat.le_refl _, houter'⟩, ?_⟩
      · have hmono (stored attributes) (hcopy : CopyOf r stored attributes) :
            CopyOf r₁ stored attributes := hcopy.mono (huris ▸ fun _ => id)
        generalize openStyles calls = styles at hcopies ⊢
        cases hcopies with
        | cons hcurrent hrest =>
          exact .cons (hmono _ _ hcurrent) (hrest.imp fun _ _ => hmono _ _)
      · intro outermost hlast hlt
        cases outer with
        | nil =>
          obtain rfl := Option.some.inj hlast
          exact absurd hlt (Nat.lt_irrefl _)
        | cons next rest =>
          rw [List.getLast?_cons_cons] at hlast
          exact hcovered outermost hlast hlt

/-- What `StoreAttributes` does where it returns true. -/
theorem stored_of_storeAttributes {r r' : Recorder Color} {attributes : TextAttributes Color}
    {stored : StoredAttributes Color}
    (h : r.storeAttributes attributes = some (some stored, r')) :
    CopyOf r' stored attributes ∧ r'.spans = r.spans ∧ r'.active = r.active ∧
      r'.disabled = r.disabled ∧ ∀ p ∈ r.uris, p ∈ r'.uris := by
  rcases hlink : attributes.hyperlink with _ | uri
  · simp only [Recorder.storeAttributes, hlink, Option.some.injEq, Prod.mk.injEq] at h
    obtain ⟨rfl, rfl⟩ := h
    exact ⟨⟨rfl, hlink ▸ .none⟩, rfl, rfl, rfl, fun _ => id⟩
  · simp only [Recorder.storeAttributes, hlink] at h
    split at h
    · cases h
    · split at h
      · simp only [Option.some.injEq, Prod.mk.injEq] at h
        obtain ⟨rfl, rfl⟩ := h
        refine ⟨⟨rfl, ?_⟩, rfl, rfl, rfl, fun _ => List.mem_cons_of_mem _⟩
        rw [hlink]
        exact .some (List.mem_cons_self ..)
      · cases h

/-- A push keeps the invariant or disables the recorder. -/
theorem Tracks.push {calls : List (Call Color)} {r r' : Recorder Color} {now : ℕ}
    {attributes : TextAttributes Color} (h : Tracks calls r now)
    (hpush : r.push now attributes = some r') :
    Off r' ∨ Tracks (calls ++ [Call.push now attributes]) r' now := by
  rw [Recorder.push, if_neg (by rw [h.enabled]; exact Bool.false_ne_true)] at hpush
  split at hpush
  · exact .inl (Option.some.inj hpush ▸ off_disable r)
  rcases hsuspend : r.suspend now with _ | r₁ <;> simp only [hsuspend] at hpush
  · exact .inl (Option.some.inj hpush ▸ off_disable r)
  obtain ⟨henabled, -, hshown, hcopies, hstarts, hle, hcovered⟩ := h.suspend hsuspend
  rcases hstore : r₁.storeAttributes attributes with _ | ⟨_ | stored, r₂⟩ <;>
    simp only [hstore] at hpush
  · cases hpush
  · exact .inl (Option.some.inj hpush ▸ off_disable r₂)
  obtain ⟨hcopy, hspans, hactive, hdisabled, huris⟩ := stored_of_storeAttributes hstore
  obtain rfl := Option.some.inj hpush
  refine .inr ⟨hdisabled.trans henabled, ?_, ?_, ?_, Nat.le_refl _, ?_, ?_⟩
  · refine List.forall_mem_append.mpr ⟨fun c hc => ?_, ?_⟩
    · exact Nat.le_trans (h.offsets c hc) h.settled_le
    · exact List.forall_mem_singleton.mpr (Nat.le_refl _)
  · rw [openStyles_append]
    refine .cons hcopy ?_
    rw [hactive]
    exact hcopies.imp fun _ _ hc => hc.mono huris
  · rw [hactive]
    exact List.pairwise_cons.mpr ⟨hle, hstarts⟩
  · exact ShowsUpTo.append (c := .push now attributes) hshown hspans huris
  · intro current outer heq outermost hlast hlt
    obtain ⟨rfl, rfl⟩ := List.cons.inj heq
    rw [hactive] at hlast
    rw [hspans]
    exact hcovered outermost hlast hlt

theorem CopyOf.endSpan {r r' : Recorder Color} {styles : List (ActiveStyle Color)}
    {attributes : List (TextAttributes Color)} (huris : r'.uris = r.uris)
    (h : List.Forall₂ (fun style => CopyOf r style.attributes) styles attributes) :
    List.Forall₂ (fun style => CopyOf r' style.attributes) styles attributes :=
  h.imp fun _ _ hcopy => hcopy.mono (huris ▸ fun _ => id)

/-- A pop or a close of no style changes nothing. -/
theorem Tracks.of_nil {calls : List (Call Color)} {r : Recorder Color} {c : Call Color}
    (h : Tracks calls r c.offset) (hactive : r.active = []) (hc : applyStyle [] c = []) :
    Tracks (calls ++ [c]) r c.offset := by
  have hsettled := settled_nil hactive c.offset
  have hoffsets := h.offsets
  have hshown := h.shown
  have hopen := h.active
  rw [hsettled] at hoffsets hshown
  rw [hactive, List.forall₂_nil_left_iff] at hopen
  refine ⟨h.enabled, ?_, ?_, h.starts, h.settled_le, ?_, h.covered⟩
  · rw [hsettled]
    exact List.forall_mem_append.mpr ⟨hoffsets, List.forall_mem_singleton.mpr (Nat.le_refl _)⟩
  · rw [openStyles_append, hopen, hc, hactive]
    exact .nil
  · rw [hsettled]
    exact hshown.append rfl fun _ => id

/-- A pop keeps the invariant or disables the recorder. -/
theorem Tracks.pop {calls : List (Call Color)} {r : Recorder Color} {now : ℕ}
    (h : Tracks calls r now) :
    Off (r.pop now) ∨ Tracks (calls ++ [Call.pop now]) (r.pop now) now := by
  rw [Recorder.pop, if_neg (by rw [h.enabled]; exact Bool.false_ne_true)]
  rcases hactive : r.active with _ | ⟨current, outer⟩ <;> dsimp only
  · exact .inr (Tracks.of_nil (c := .pop now) h hactive rfl)
  rcases hadd : r.addSpan current.start now current.attributes with _ | r₁ <;> dsimp only
  · exact .inl (off_disable r)
  obtain ⟨henabled, -, huris, hshown, hcovered⟩ := h.endSpan hactive hadd
  have hle := h.settled_le
  have hcopies := h.active
  have hstarts := h.starts
  rw [settled_cons hactive] at hle
  rw [hactive] at hcopies hstarts
  obtain ⟨houter, hstarts⟩ := List.pairwise_cons.mp hstarts
  have houter' (style) (hs : style ∈ outer) : style.start ≤ now :=
    Nat.le_trans (houter style hs) hle
  have hoffsets : ∀ c ∈ calls ++ [Call.pop now], c.offset ≤ now := List.forall_mem_append.mpr
    ⟨fun c hc => Nat.le_trans (h.offsets c hc) h.settled_le,
      List.forall_mem_singleton.mpr (Nat.le_refl _)⟩
  have hcopies : List.Forall₂ (fun style => CopyOf r₁ style.attributes) outer
      (openStyles calls).tail := by
    generalize openStyles calls = styles at hcopies
    cases hcopies with
    | cons _ hrest => exact CopyOf.endSpan huris hrest
  refine .inr ?_
  cases outer with
  | nil =>
    refine ⟨henabled, hoffsets, ?_, .nil, Nat.le_refl _, ?_,
      fun _ _ h => absurd h.symm (List.cons_ne_nil _ _)⟩
    · rw [openStyles_append]
      exact hcopies
    · exact ShowsUpTo.append (c := .pop now) hshown rfl fun _ => id
  | cons next rest =>
    refine ⟨henabled, hoffsets, ?_, ?_, Nat.le_refl _, ?_, ?_⟩
    · rw [openStyles_append]
      change List.Forall₂ _ _ (openStyles calls).tail
      generalize (openStyles calls).tail = styles at hcopies
      cases hcopies with
      | cons hnext hrest => exact .cons hnext hrest
    · exact List.pairwise_cons.mpr ⟨fun style hs => houter' style (List.mem_cons_of_mem _ hs),
        (List.pairwise_cons.mp hstarts).2⟩
    · exact ShowsUpTo.append (c := .pop now) hshown rfl fun _ => id
    · intro current' outer' heq outermost hlast hlt
      obtain ⟨rfl, rfl⟩ := List.cons.inj heq
      refine hcovered outermost ?_ hlt
      rw [List.getLast?_cons, Option.mem_def.mp hlast]
      rfl

/-! ### Overlapping calls of `Close` -/

/-- A `Close` at `offset` that finds several styles open and text since the outermost of them was
suspended. -/
def Overlaps (r : Recorder Color) : Call Color → Prop
  | .close offset => r.disabled = false ∧ ∃ current outer, r.active = current :: outer ∧
      ∃ outermost ∈ outer.getLast?, outermost.start < offset
  | _ => False

/-- Styles that were suspended at the offset of the `Close` have no text to add. -/
theorem closeLoop_of_le {offset : ℕ} : ∀ (styles : List (ActiveStyle Color)) (r : Recorder Color),
    r.active = styles → (∀ style ∈ styles, offset ≤ style.start) →
      Recorder.closeLoop offset styles r = { r with active := [] }
  | [], r, hactive, _ => by
    rw [Recorder.closeLoop, ← hactive]
  | current :: outer, r, _, hstarts => by
    obtain ⟨hcurrent, houter⟩ := List.forall_mem_cons.mp hstarts
    rw [Recorder.closeLoop, Recorder.addSpan, if_pos hcurrent]
    exact closeLoop_of_le outer _ rfl houter

/-- A `Close` that does not overlap keeps the invariant or disables the recorder. -/
theorem Tracks.close {calls : List (Call Color)} {r : Recorder Color} {now : ℕ}
    (h : Tracks calls r now) (hgood : ¬Overlaps r (.close now)) :
    Off (r.close now) ∨ Tracks (calls ++ [Call.close now]) (r.close now) now := by
  rw [Recorder.close, if_neg (by rw [h.enabled]; exact Bool.false_ne_true)]
  rcases hactive : r.active with _ | ⟨current, outer⟩ <;> rw [Recorder.closeLoop]
  · exact .inr (Tracks.of_nil (c := .close now) h hactive rfl)
  rcases hadd : r.addSpan current.start now current.attributes with _ | r₁ <;> dsimp only
  · exact .inl (off_disable r)
  obtain ⟨henabled, -, -, hshown, -⟩ := h.endSpan hactive hadd
  have houter : ∀ style ∈ outer, now ≤ style.start := by
    intro style hs
    obtain ⟨pre, outermost, rfl⟩ := (List.eq_nil_or_concat' outer).resolve_left
      (List.ne_nil_of_mem hs)
    have hlast : now ≤ outermost.start := Nat.le_of_not_lt fun hlt =>
      hgood ⟨h.enabled, current, _, hactive, outermost, List.getLast?_concat, hlt⟩
    have hstarts := h.starts
    rw [hactive] at hstarts
    rcases List.mem_append.mp hs with hpre | hs
    · have := (List.pairwise_append.mp (List.pairwise_cons.mp hstarts).2).2.2 style hpre outermost
        (List.mem_singleton_self _)
      omega
    · exact List.mem_singleton.mp hs ▸ hlast
  rw [closeLoop_of_le outer _ rfl houter]
  refine .inr ⟨henabled, ?_, ?_, .nil, Nat.le_refl _, ?_,
    fun _ _ h => absurd h.symm (List.cons_ne_nil _ _)⟩
  · exact List.forall_mem_append.mpr ⟨fun c hc => Nat.le_trans (h.offsets c hc) h.settled_le,
      List.forall_mem_singleton.mpr (Nat.le_refl _)⟩
  · rw [openStyles_append]
    exact .nil
  · exact ShowsUpTo.append (c := .close now) hshown rfl fun _ => id

/-- The recorder holds overlapping spans, all of them before `now`. -/
structure Broken (r : Recorder Color) (now : ℕ) : Prop where
  enabled : r.disabled = false
  overlapping : Span.Overlapping r.spans
  before : ∀ s ∈ r.spans, s.stop ≤ now

theorem Broken.later {r : Recorder Color} {now later : ℕ} (h : Broken r now) (hle : now ≤ later) :
    Broken r later := ⟨h.enabled, h.overlapping, fun s hs => Nat.le_trans (h.before s hs) hle⟩

theorem Broken.addSpan {r r' : Recorder Color} {start stop : ℕ}
    {attributes : StoredAttributes Color} (h : Broken r stop)
    (hadd : r.addSpan start stop attributes = some r') : Broken r' stop := by
  rcases spans_of_addSpan hadd with ⟨-, rfl⟩ | ⟨hlt, rfl⟩
  · exact h
  · exact ⟨h.enabled, h.overlapping.append hlt, List.forall_mem_append.mpr
      ⟨h.before, List.forall_mem_singleton.mpr (Nat.le_refl _)⟩⟩

theorem Broken.closeLoop {offset : ℕ} : ∀ (styles : List (ActiveStyle Color))
    (r : Recorder Color), Broken r offset →
      Off (Recorder.closeLoop offset styles r) ∨ Broken (Recorder.closeLoop offset styles r) offset
  | [], _, h => .inr h
  | current :: outer, r, h => by
    rw [Recorder.closeLoop]
    rcases hadd : r.addSpan current.start offset current.attributes with _ | r₁ <;> dsimp only
    · exact .inl (off_disable r)
    · have hr₁ := h.addSpan hadd
      exact closeLoop outer { r₁ with active := outer }
        ⟨hr₁.enabled, hr₁.overlapping, hr₁.before⟩

/-- Calls only add spans, or disable the recorder. -/
theorem Broken.step {r r' : Recorder Color} {c : Call Color} (h : Broken r c.offset)
    (hreset : c ≠ .reset) (hstep : step r c = some r') : Off r' ∨ Broken r' c.offset := by
  cases c with
  | reset => exact absurd rfl hreset
  | push offset attributes =>
    simp only [Style.step, Recorder.push] at hstep
    split at hstep
    · exact .inr (Option.some.inj hstep ▸ h)
    split at hstep
    · exact .inl (Option.some.inj hstep ▸ off_disable r)
    rcases hsuspend : r.suspend offset with _ | r₁ <;> simp only [hsuspend] at hstep
    · exact .inl (Option.some.inj hstep ▸ off_disable r)
    rcases hstore : r₁.storeAttributes attributes with _ | ⟨_ | stored, r₂⟩ <;>
      simp only [hstore] at hstep
    · cases hstep
    · exact .inl (Option.some.inj hstep ▸ off_disable r₂)
    have hr₁ : Broken r₁ offset := by
      rw [Recorder.suspend] at hsuspend
      split at hsuspend
      · exact Option.some.inj hsuspend ▸ h
      · rename_i current outer hactive
        obtain ⟨r₃, hadd, hr₃⟩ := Option.bind_eq_some_iff.mp hsuspend
        have := h.addSpan hadd
        exact Option.some.inj hr₃ ▸ ⟨this.enabled, this.overlapping, this.before⟩
    obtain ⟨-, hspans, -, hdisabled, -⟩ := stored_of_storeAttributes hstore
    refine .inr (Option.some.inj hstep ▸ ⟨hdisabled.trans hr₁.enabled, ?_, ?_⟩)
    · exact hspans.symm ▸ hr₁.overlapping
    · exact hspans.symm ▸ hr₁.before
  | pop offset =>
    simp only [Style.step, Recorder.pop, Option.some.injEq] at hstep
    subst hstep
    split
    · exact .inr h
    split
    · exact .inr h
    rename_i current outer hactive
    rcases hadd : r.addSpan current.start offset current.attributes with _ | r₁ <;> dsimp only
    · exact .inl (off_disable r)
    · have := h.addSpan hadd
      exact .inr ⟨this.enabled, this.overlapping, this.before⟩
  | close offset =>
    simp only [Style.step, Recorder.close, Option.some.injEq] at hstep
    subst hstep
    split
    · exact .inr h
    · exact Broken.closeLoop r.active r h

/-- A disabled recorder stays as it is until it is reset. -/
theorem Off.step {r r' : Recorder Color} {c : Call Color} (h : Off r) (hreset : c ≠ .reset)
    (hstep : step r c = some r') : Off r' := by
  cases c with
  | reset => exact absurd rfl hreset
  | push offset attributes =>
    rw [Style.step, Recorder.push, if_pos h.disabled] at hstep
    exact Option.some.inj hstep ▸ h
  | pop offset =>
    rw [Style.step, Recorder.pop, if_pos h.disabled] at hstep
    exact Option.some.inj hstep ▸ h
  | close offset =>
    rw [Style.step, Recorder.close, if_pos h.disabled] at hstep
    exact Option.some.inj hstep ▸ h

/-- Once a span ends at `offset`, an open style that began before it adds one that overlaps. -/
theorem closeLoop_overlaps {offset : ℕ} : ∀ (styles : List (ActiveStyle Color))
    (r : Recorder Color) {last : Span (StoredAttributes Color)}, r.disabled = false →
      (∀ s ∈ r.spans, s.start < s.stop) → (∀ s ∈ r.spans, s.stop ≤ offset) →
      r.spans.getLast? = some last → last.stop = offset → (∃ style ∈ styles, style.start < offset) →
        Off (Recorder.closeLoop offset styles r) ∨
          Broken (Recorder.closeLoop offset styles r) offset
  | [], _, _, _, _, _, _, _, hsome => absurd hsome nofun
  | current :: outer, r, last, henabled, hspans, hbefore, hlast, hstop, hsome => by
    rw [Recorder.closeLoop]
    rcases hadd : r.addSpan current.start offset current.attributes with _ | r₁ <;> dsimp only
    · exact .inl (off_disable r)
    rcases spans_of_addSpan hadd with ⟨hle, rfl⟩ | ⟨hlt, rfl⟩
    · refine closeLoop_overlaps outer _ henabled hspans hbefore hlast hstop ?_
      obtain ⟨style, hs, hlt⟩ := hsome
      rcases List.mem_cons.mp hs with rfl | hs
      · omega
      · exact ⟨style, hs, hlt⟩
    · exact Broken.closeLoop outer _ ⟨henabled,
        Span.overlapping_append hspans hlast hlt (hstop ▸ hlt),
        List.forall_mem_append.mpr ⟨hbefore, List.forall_mem_singleton.mpr (Nat.le_refl _)⟩⟩

/-- A `Close` that overlaps leaves overlapping spans or disables the recorder. -/
theorem Tracks.close_overlaps {calls : List (Call Color)} {r : Recorder Color} {now : ℕ}
    (h : Tracks calls r now) (hbad : Overlaps r (.close now)) :
    Off (r.close now) ∨ Broken (r.close now) now := by
  obtain ⟨hdisabled, current, outer, hactive, outermost, hlast, hlt⟩ := hbad
  rw [Recorder.close, if_neg (by rw [hdisabled]; exact Bool.false_ne_true), hactive,
    Recorder.closeLoop]
  rcases hadd : r.addSpan current.start now current.attributes with _ | r₁ <;> dsimp only
  · exact .inl (off_disable r)
  obtain ⟨henabled, -, -, hshown, hcovered⟩ := h.endSpan hactive hadd
  obtain ⟨last, hlastSpan, hstop⟩ := hcovered outermost hlast hlt
  exact closeLoop_overlaps outer _ henabled hshown.ordered.nonempty hshown.before hlastSpan hstop
    ⟨outermost, List.mem_of_getLast? hlast, hlt⟩

/-! ### Runs -/

/-- A call that does not overlap keeps the invariant or disables the recorder. -/
theorem tracks_step {calls : List (Call Color)} {r r' : Recorder Color} {c : Call Color}
    (h : Tracks calls r c.offset) (hreset : c ≠ .reset) (hgood : ¬Overlaps r c)
    (hstep : step r c = some r') : Off r' ∨ Tracks (calls ++ [c]) r' c.offset := by
  cases c with
  | reset => exact absurd rfl hreset
  | push offset attributes => exact h.push hstep
  | pop offset => exact Option.some.inj hstep ▸ h.pop
  | close offset => exact Option.some.inj hstep ▸ h.close hgood

/-- A call that overlaps breaks the spans or disables the recorder. -/
theorem broken_step {calls : List (Call Color)} {r r' : Recorder Color} {c : Call Color}
    (h : Tracks calls r c.offset) (hbad : Overlaps r c) (hstep : step r c = some r') :
    Off r' ∨ Broken r' c.offset := by
  cases c with
  | reset => exact absurd hbad id
  | push offset attributes => exact absurd hbad id
  | pop offset => exact absurd hbad id
  | close offset => exact Option.some.inj hstep ▸ h.close_overlaps hbad

theorem run_off {last first : ℕ} {calls : List (Call Color)} {r r' : Recorder Color}
    (horder : InOrder last first calls) (h : Off r) (hrun : run step r calls = some r') : Off r' :=
  Transition.run_invariant (P := (· ≠ .reset)) (fun _ _ _ hreset hoff => hoff.step hreset)
    horder.ne_reset h hrun

/-- Overlapping spans stay unless the recorder disables itself. -/
theorem run_broken {last : ℕ} : ∀ {calls : List (Call Color)} {first : ℕ} {r r' : Recorder Color},
    InOrder last first calls → Broken r first → run step r calls = some r' →
      Off r' ∨ Broken r' last
  | [], _, _, _, horder, h, hrun => .inr (Option.some.inj hrun ▸ h.later horder)
  | c :: calls, first, r, r', horder, h, hrun => by
    obtain ⟨hreset, hle, horder⟩ := horder
    obtain ⟨r₁, hstep, hrun⟩ := Transition.run_cons_eq_some.mp hrun
    rcases (h.later hle).step hreset hstep with hoff | hbroken
    · exact .inl (run_off horder hoff hrun)
    · exact run_broken horder hbroken hrun

/-- After a run the recorder is disabled, or it holds the styles and no call has overlapped, or its
spans overlap and a call has. -/
theorem tracks_run {last : ℕ} : ∀ {calls hist : List (Call Color)} {first : ℕ}
    {r r' : Recorder Color}, InOrder last first calls → Tracks hist r first →
      run step r calls = some r' →
        Off r' ∨ (Tracks (hist ++ calls) r' last ∧ Along step (fun r c => ¬Overlaps r c) r calls) ∨
          (Broken r' last ∧ ¬Along step (fun r c => ¬Overlaps r c) r calls)
  | [], hist, _, r, r', horder, h, hrun => by
    obtain rfl := Option.some.inj hrun
    rw [List.append_nil]
    exact .inr (.inl ⟨h.later horder, Transition.along_nil _ _⟩)
  | c :: calls, hist, first, r, r', horder, h, hrun => by
    obtain ⟨hreset, hle, horder⟩ := horder
    obtain ⟨r₁, hstep, hrun⟩ := Transition.run_cons_eq_some.mp hrun
    have hnow := h.later hle
    by_cases hbad : Overlaps r c
    · rcases broken_step hnow hbad hstep with hoff | hbroken
      · exact .inl (run_off horder hoff hrun)
      · exact (run_broken horder hbroken hrun).imp_right fun hbroken =>
          .inr ⟨hbroken, fun halong => (Transition.along_cons.mp halong).1 hbad⟩
    · rcases tracks_step hnow hreset hbad hstep with hoff | htracks
      · exact .inl (run_off horder hoff hrun)
      · have ih := tracks_run horder htracks hrun
        rw [List.append_assoc] at ih
        have halong : Along step (fun r c => ¬Overlaps r c) r (c :: calls) ↔
            Along step (fun r c => ¬Overlaps r c) r₁ calls := by
          refine Transition.along_cons.trans ⟨fun h => h.2 r₁ hstep, fun h => ⟨hbad, ?_⟩⟩
          intro r₂ hstep'
          exact Option.some.inj (hstep.symm.trans hstep') ▸ h
        rwa [halong]

/-! ### The body of the message -/

/-- The stored attributes are those pushed, their target spelled out in the storage. -/
def SameAttributes (r : Recorder Color) (stored : StoredAttributes Color)
    (attributes : TextAttributes Color) : Prop :=
  stored.color = attributes.color ∧
    Option.Rel (fun offset (uri : Uri) => offset + uri.text.length + 1 ≤ kMaxUriBytes ∧
      ∀ i ≤ uri.text.length, r.uriStorage (offset + i) = uri.text.byteAt i)
      stored.hyperlink attributes.hyperlink

/-- The attributes that the bytes should have. -/
def intended (base : Color) (calls : List (Call Color)) (r : Recorder Color) (i : ℕ) :
    TextAttributes Color :=
  if r.disabled then ⟨base, none⟩ else (styleAt calls i).getD ⟨base, none⟩

/-- `WriteStyledLogBody` writes each byte of the range once, in order, each with the attributes of
the innermost style that was open when it was streamed. -/
def BodyShows (base : Color) (message : List Byte) (calls : List (Call Color)) (r : Recorder Color)
    (first last : ℕ) : Prop :=
  List.Forall₂ (fun written byte => written.1 = byte.1 ∧ SameAttributes r written.2 byte.2)
    (writeStyledLogBody ⟨base, none⟩ message r.spans first last)
    (labelled (intended base calls r) message first last)

theorem CopyOf.same {r : Recorder Color} {stored : StoredAttributes Color}
    {attributes : TextAttributes Color} (hr : StorageOk r) (h : CopyOf r stored attributes) :
    SameAttributes r stored attributes := by
  rcases stored with ⟨color, _ | offset⟩ <;> rcases attributes with ⟨color', _ | uri⟩
  · exact ⟨h.1, .none⟩
  · cases h.2
  · cases h.2
  · obtain ⟨hcolor, hlink⟩ := h
    cases hlink with
    | some hmem =>
      exact ⟨hcolor, .some ⟨Nat.le_trans (hr.inside _ hmem) hr.size_le, hr.stored _ hmem⟩⟩

/-- Two labellings of the same range are related if the labels are. -/
theorem forall₂_labelled {α β : Type} {R : α → β → Prop} {f : ℕ → α} {g : ℕ → β}
    (message : List Byte) {first last : ℕ} (h : ∀ i < last, R (f i) (g i)) :
    List.Forall₂ (fun a b => a.1 = b.1 ∧ R a.2 b.2) (labelled f message first last)
      (labelled g message first last) := by
  rw [labelled, labelled, List.forall₂_map_left_iff, List.forall₂_map_right_iff,
    List.forall₂_same]
  intro i hi
  rw [List.mem_range'_1] at hi
  exact ⟨rfl, h i (by omega)⟩

theorem bodyShows_of_off {base : Color} {message : List Byte} {calls : List (Call Color)}
    {r : Recorder Color} {first last : ℕ} (h : Off r) (hle : first ≤ last) :
    BodyShows base message calls r first last := by
  rw [BodyShows, writeStyledLogBody_ordered _ _ (h.spans ▸ Span.ordered_nil) hle]
  refine forall₂_labelled message fun i _ => ?_
  rw [attributesAt, h.spans, Span.lookup_nil, intended, if_pos h.disabled]
  exact ⟨rfl, .none⟩

theorem bodyShows_of_tracks {base : Color} {message : List Byte} {calls : List (Call Color)}
    {r : Recorder Color} {now first last : ℕ} (hr : StorageOk r) (h : Tracks calls r now)
    (hactive : openStyles calls = []) (hle : first ≤ last) (hlast : last ≤ now) :
    BodyShows base message calls r first last := by
  have hstyles := h.active
  rw [hactive, List.forall₂_nil_right_iff] at hstyles
  have hshown := h.shown
  rw [settled_nil hstyles] at hshown
  rw [BodyShows, writeStyledLogBody_ordered _ _ hshown.ordered hle]
  refine forall₂_labelled message fun i hi => ?_
  have hshows := hshown.shows i (by omega)
  rw [attributesAt, intended, if_neg (by rw [h.enabled]; exact Bool.false_ne_true)]
  generalize Span.lookup r.spans i = stored, styleAt calls i = attributes at hshows
  cases hshows with
  | none => exact ⟨rfl, .none⟩
  | some hcopy => exact hcopy.same hr

theorem not_bodyShows_of_broken {base : Color} {message : List Byte} {calls : List (Call Color)}
    {r : Recorder Color} {last : ℕ} (h : Broken r last) :
    ¬BodyShows base message calls r 0 last := by
  intro hshows
  have hmore := writeStyledLogBody_overlapping (⟨base, none⟩ : StoredAttributes Color) message
    h.overlapping h.before
  have hlength := hshows.length_eq
  rw [length_labelled] at hlength
  omega

theorem tracks_init (storage : ℕ → Byte) : Tracks [] (Recorder.init storage : Recorder Color) 0 :=
  ⟨rfl, nofun, .nil, .nil, Nat.le_refl _, ⟨Span.ordered_nil, nofun, fun _ hi => absurd hi
    (Nat.not_lt_zero _)⟩, nofun⟩

/-- After the calls of a message and the `Close` of `Flush`, the body of every range is as it
should be, if and only if no target is copied past the storage, and no `Close` overlaps unless the
recorder is disabled in the end. -/
theorem body_shows_styles_iff (storage : ℕ → Byte) (base : Color) (message : List Byte)
    (calls : List (Call Color)) (horder : InOrder message.length 0 calls) :
    (∃ r, run step (Recorder.init storage) (calls ++ [Call.close message.length]) = some r ∧
      ∀ first last, first ≤ last → last ≤ message.length →
        BodyShows base message (calls ++ [Call.close message.length]) r first last) ↔
    Along step (fun r c => ¬Overfull r c) (Recorder.init storage)
        (calls ++ [Call.close message.length]) ∧
      ∀ r, run step (Recorder.init storage) (calls ++ [Call.close message.length]) = some r →
        r.disabled = true ∨ Along step (fun r c => ¬Overlaps r c) (Recorder.init storage)
          (calls ++ [Call.close message.length]) := by
  have hclosed : openStyles (calls ++ [Call.close message.length]) = [] := openStyles_append _ _
  constructor
  · rintro ⟨r, hrun, hshows⟩
    refine ⟨Transition.along_of_run storageOk_step (storageOk_init storage) hrun, ?_⟩
    intro r' hrun'
    obtain rfl : r = r' := Option.some.inj (hrun.symm.trans hrun')
    rcases tracks_run horder.close (tracks_init storage) hrun with
      hoff | ⟨-, halong⟩ | ⟨hbroken, -⟩
    · exact .inl hoff.disabled
    · exact .inr halong
    · exact absurd (hshows 0 _ (Nat.zero_le _) (Nat.le_refl _)) (not_bodyShows_of_broken hbroken)
  · rintro ⟨hfull, hgood⟩
    obtain ⟨r, hrun, hr⟩ := Transition.run_enabled storageOk_enabled hfull (storageOk_init storage)
    refine ⟨r, hrun, fun first last hle hlast => ?_⟩
    rcases tracks_run horder.close (tracks_init storage) hrun with
      hoff | ⟨htracks, -⟩ | ⟨hbroken, hbad⟩
    · exact bodyShows_of_off hoff hle
    · exact bodyShows_of_tracks hr htracks hclosed hle hlast
    · rcases hgood r hrun with hdisabled | halong
      · cases hbroken.enabled.symm.trans hdisabled
      · exact absurd halong hbad

/-- One style inside another, both popped: the body shows them. -/
theorem body_shows_styles_nested :
    ∃ r, run step (Recorder.init fun _ => 0)
        ([Call.push 0 ⟨1, none⟩, .push 1 ⟨2, none⟩, .pop 2, .pop 3] ++ [Call.close 3]) = some r ∧
      ∀ first last, first ≤ last → last ≤ 3 →
        BodyShows (0 : ℕ) [104, 105, 33]
          ([Call.push 0 ⟨1, none⟩, .push 1 ⟨2, none⟩, .pop 2, .pop 3] ++ [Call.close 3])
          r first last := by
  refine (body_shows_styles_iff (fun _ => 0) 0 [104, 105, 33] _ ?_).mpr ⟨?_, fun r _ => .inr ?_⟩
  · simp [InOrder, Call.offset]
  · refine Transition.along_cons.mpr ⟨fun h => Bool.noConfusion h.2.2.2.1, fun r₁ h₁ => ?_⟩
    refine Transition.along_cons.mpr ⟨fun h => Bool.noConfusion h.2.2.2.1, fun r₂ h₂ => ?_⟩
    refine Transition.along_cons.mpr ⟨id, fun r₃ h₃ => ?_⟩
    refine Transition.along_cons.mpr ⟨id, fun r₄ h₄ => ?_⟩
    exact Transition.along_cons.mpr ⟨id, fun r₅ h₅ => Transition.along_nil _ _⟩
  · refine Transition.along_cons.mpr ⟨id, fun r₁ h₁ => ?_⟩
    refine Transition.along_cons.mpr ⟨id, fun r₂ h₂ => ?_⟩
    refine Transition.along_cons.mpr ⟨id, fun r₃ h₃ => ?_⟩
    refine Transition.along_cons.mpr ⟨id, fun r₄ h₄ => ?_⟩
    refine Transition.along_cons.mpr ⟨?_, fun r₅ h₅ => Transition.along_nil _ _⟩
    cases h₁
    cases h₂
    cases h₃
    cases h₄
    rintro ⟨-, current, outer, hactive, -⟩
    cases hactive

/-- Two styles left open: a style from the start, another one from byte 2, and five bytes of text.
`Close` ends both at 5, the outer one as if it had gone on at byte 2. -/
theorem body_repeats_text : ¬∀ (storage : ℕ → Byte) (base : ℕ) (message : List Byte)
    (calls : List (Call ℕ)), InOrder message.length 0 calls →
      ∃ r, run step (Recorder.init storage) (calls ++ [Call.close message.length]) = some r ∧
        ∀ first last, first ≤ last → last ≤ message.length →
          BodyShows base message (calls ++ [Call.close message.length]) r first last := by
  intro hall
  obtain ⟨r, hrun, hshows⟩ := hall (fun _ => 0) 0 [104, 101, 108, 108, 111]
    [.push 0 ⟨1, none⟩, .push 2 ⟨2, none⟩] (by simp [InOrder, Call.offset])
  obtain rfl := Option.some.inj hrun
  have hlength := (hshows 0 5 (by decide) (by decide)).length_eq
  revert hlength
  decide

end Style

end NgLog
