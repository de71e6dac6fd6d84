import NgLog.Style.Storage

/-!
# Writing a styled message body

`WriteStyledLogBody` walks the spans of a recorder, clamps them to a range of the text, and fills
the gaps between them with the base attributes. It relies on spans that are ordered and do not
overlap: then it writes each byte of the range once. If two neighbours overlap, the text under the
overlap is written twice.

What is written is modelled as the list of bytes with their attributes; how a terminal renders a
field is left to `WriteStyledLogField`.

## Main definitions

* `writeStyledLogBody` — the function

## Main results

* `writeStyledLogBody_ordered` — over ordered spans each byte is written once, with its label
* `writeStyledLogBody_overlapping` — over overlapping spans more bytes are written than there are
-/

namespace NgLog

namespace Style

variable {Attributes : Type}

/-- `WriteStyledLogField` for the text `[first, last)` of the message. -/
def writeStyledLogField (attributes : Attributes) (message : List Byte) (first last : ℕ) :
    List (Byte × Attributes) :=
  (List.range' first (last - first)).map fun i => (message.getD i 0, attributes)

/-- The end of `WriteStyledLogBody`: the rest of the range. -/
def writeRest (base : Attributes) (message : List Byte) (cursor last : ℕ) :
    List (Byte × Attributes) :=
  if cursor < last then writeStyledLogField base message cursor last else []

/-- The loop of `WriteStyledLogBody` over the spans from the current one on, and its end. -/
def writeSpans (base : Attributes) (message : List Byte) (first last : ℕ) :
    List (Span Attributes) → ℕ → List (Byte × Attributes)
  | [], cursor => writeRest base message cursor last
  | span :: spans, cursor =>
    if span.stop ≤ first then writeSpans base message first last spans cursor
    else if span.start ≥ last then writeRest base message cursor last
    else
      let spanBegin := max span.start first
      let spanEnd := min span.stop last
      let gap := if spanBegin > cursor then writeStyledLogField base message cursor spanBegin
        else []
      if spanEnd > spanBegin then
        gap ++ writeStyledLogField span.value message spanBegin spanEnd ++
          writeSpans base message first last spans spanEnd
      else gap ++ writeSpans base message first last spans cursor

/-- `WriteStyledLogBody` for the range `[first, last)`. -/
def writeStyledLogBody (base : Attributes) (message : List Byte) (spans : List (Span Attributes))
    (first last : ℕ) : List (Byte × Attributes) :=
  writeSpans base message first last spans first

/-! ### Ordered spans -/

/-- The bytes of a range, each with the attributes that `f` gives its index. -/
def labelled (f : ℕ → Attributes) (message : List Byte) (first last : ℕ) :
    List (Byte × Attributes) :=
  (List.range' first (last - first)).map fun i => (message.getD i 0, f i)

theorem labelled_append (f : ℕ → Attributes) (message : List Byte) {a b c : ℕ} (hab : a ≤ b)
    (hbc : b ≤ c) : labelled f message a b ++ labelled f message b c = labelled f message a c := by
  have hb : b = a + 1 * (b - a) := by omega
  have hc : c - a = (b - a) + (c - b) := by omega
  rw [labelled, labelled, labelled, ← List.map_append, hc, ← List.range'_append, ← hb]

theorem labelled_congr {f g : ℕ → Attributes} (message : List Byte) {first last : ℕ}
    (h : ∀ i, first ≤ i → i < last → f i = g i) :
    labelled f message first last = labelled g message first last := by
  refine List.map_congr_left fun i hi => ?_
  rw [List.mem_range'_1] at hi
  rw [h i hi.1 (by omega)]

theorem labelled_of_le (f : ℕ → Attributes) (message : List Byte) {first last : ℕ}
    (h : last ≤ first) : labelled f message first last = [] := by
  rw [labelled, Nat.sub_eq_zero_of_le h]
  rfl

theorem writeRest_eq (base : Attributes) (message : List Byte) (cursor last : ℕ) :
    writeRest base message cursor last = labelled (fun _ => base) message cursor last := by
  rw [writeRest]
  split
  · rfl
  · rw [labelled_of_le _ _ (by omega)]

theorem writeGap_eq (base : Attributes) (message : List Byte) (cursor stop : ℕ) :
    (if stop > cursor then writeStyledLogField base message cursor stop else []) =
      labelled (fun _ => base) message cursor stop := writeRest_eq base message cursor stop

/-- The attributes of an index: those of its span, or the base attributes. -/
def attributesAt (base : Attributes) (spans : List (Span Attributes)) (i : ℕ) : Attributes :=
  (Span.lookup spans i).getD base

/-- The loop writes the rest of the range from its cursor on, each byte with its attributes. The
invariant is that no span left begins before the cursor, but for the start of the range. -/
theorem writeSpans_ordered (base : Attributes) (message : List Byte) {first last : ℕ}
    (hrange : first ≤ last) :
    ∀ (spans : List (Span Attributes)) (cursor : ℕ), Span.Ordered spans → first ≤ cursor →
      cursor ≤ last → (∀ s ∈ spans, cursor ≤ max s.start first) →
        writeSpans base message first last spans cursor =
          labelled (attributesAt base spans) message cursor last
  | [], cursor, _, _, _, _ => by
    rw [writeSpans, writeRest_eq]
    rfl
  | span :: spans, cursor, hordered, hfirst, hlast, hcursor => by
    have hspan := hordered.nonempty span (List.mem_cons_self ..)
    have hafter := hordered.stop_le
    have htail (s) (hs : s ∈ spans) := hcursor s (List.mem_cons_of_mem _ hs)
    rw [writeSpans]
    split
    · rename_i hskip
      rw [writeSpans_ordered base message hrange spans cursor hordered.tail hfirst hlast htail]
      refine labelled_congr message fun i hi _ => ?_
      rw [attributesAt, attributesAt, Span.lookup_cons, if_neg fun hc => by
        have := hc.2
        omega]
    · rename_i hskip
      split
      · rename_i hbreak
        rw [writeRest_eq]
        refine labelled_congr message fun i _ hi => ?_
        rw [attributesAt, Span.lookup_eq_none_of_lt_start, Option.getD_none]
        refine List.forall_mem_cons.mpr ⟨by omega, fun s hs => ?_⟩
        have := hafter s hs
        omega
      · rename_i hbreak
        have hstart := hcursor span (List.mem_cons_self ..)
        dsimp only
        rw [writeGap_eq]
        have hgap : labelled (fun _ => base) message cursor (max span.start first) =
            labelled (attributesAt base (span :: spans)) message cursor
              (max span.start first) := by
          refine labelled_congr message fun i hi hlt => ?_
          rw [attributesAt, Span.lookup_eq_none_of_lt_start, Option.getD_none]
          refine List.forall_mem_cons.mpr ⟨by omega, fun s hs => ?_⟩
          have := hafter s hs
          omega
        split
        · rename_i hspanEnd
          have hown : writeStyledLogField span.value message (max span.start first)
              (min span.stop last) = labelled (attributesAt base (span :: spans)) message
                (max span.start first) (min span.stop last) := by
            refine labelled_congr message fun i hi hlt => ?_
            rw [attributesAt, Span.lookup_cons, if_pos ⟨by omega, by omega⟩, Option.getD_some]
          have hrest : labelled (attributesAt base spans) message (min span.stop last) last =
              labelled (attributesAt base (span :: spans)) message (min span.stop last) last := by
            refine labelled_congr message fun i hi hlt => ?_
            rw [attributesAt, attributesAt, Span.lookup_cons, if_neg fun hc => by
              have := hc.2
              omega]
          rw [writeSpans_ordered base message hrange spans _ hordered.tail (by omega) (by omega)
            fun s hs => by
              have := hafter s hs
              omega, hgap, hown, hrest, labelled_append _ _ hstart (by omega),
            labelled_append _ _ (by omega) (by omega)]
        · rename_i hspanEnd
          -- A span that reaches into the range covers a part of it unless the range is empty.
          have hempty : cursor = last := by omega
          rw [writeSpans_ordered base message hrange spans cursor hordered.tail hfirst hlast htail,
            labelled_of_le _ _ (by omega), labelled_of_le _ _ (by omega),
            labelled_of_le _ _ (by omega)]
          rfl

/-- Over ordered spans, each byte of the range is written once, in order and with the attributes of
its span. -/
theorem writeStyledLogBody_ordered (base : Attributes) (message : List Byte)
    {spans : List (Span Attributes)} (hordered : Span.Ordered spans) {first last : ℕ}
    (hrange : first ≤ last) :
    writeStyledLogBody base message spans first last =
      labelled (attributesAt base spans) message first last :=
  writeSpans_ordered base message hrange spans first hordered (Nat.le_refl _) hrange
    fun _ _ => Nat.le_max_right ..

/-! ### Overlapping spans -/

theorem length_writeStyledLogField (attributes : Attributes) (message : List Byte)
    (first last : ℕ) :
    (writeStyledLogField attributes message first last).length = last - first := by
  rw [writeStyledLogField, List.length_map, List.length_range']

theorem length_labelled (f : ℕ → Attributes) (message : List Byte) (first last : ℕ) :
    (labelled f message first last).length = last - first := by
  rw [labelled, List.length_map, List.length_range']

/-- The whole text with one more span: the gap before it, the span, and the rest. -/
theorem length_writeSpans_cons (base : Attributes) (message : List Byte) {last : ℕ}
    {span : Span Attributes} (spans : List (Span Attributes)) (cursor : ℕ)
    (hspan : span.start < span.stop) (hstop : span.stop ≤ last) :
    (writeSpans base message 0 last (span :: spans) cursor).length =
      (span.start - cursor) + (span.stop - span.start) +
        (writeSpans base message 0 last spans span.stop).length := by
  have hbegin : max span.start 0 = span.start := Nat.max_eq_left (Nat.zero_le _)
  have hend : min span.stop last = span.stop := Nat.min_eq_left hstop
  rw [writeSpans, if_neg (by omega), if_neg (by omega)]
  simp only [hbegin, hend]
  rw [if_pos hspan, writeGap_eq, List.length_append, List.length_append, length_labelled,
    length_writeStyledLogField]

theorem length_writeSpans_ge (base : Attributes) (message : List Byte) {last : ℕ} :
    ∀ (spans : List (Span Attributes)) (cursor : ℕ), (∀ s ∈ spans, s.start < s.stop) →
      (∀ s ∈ spans, s.stop ≤ last) →
        last - cursor ≤ (writeSpans base message 0 last spans cursor).length
  | [], cursor, _, _ => Nat.le_of_eq (by rw [writeSpans, writeRest_eq, length_labelled])
  | span :: spans, cursor, hspans, hstops => by
    obtain ⟨hspan, htail⟩ := List.forall_mem_cons.mp hspans
    obtain ⟨hstop, hstops'⟩ := List.forall_mem_cons.mp hstops
    have := length_writeSpans_ge base message spans span.stop htail hstops'
    rw [length_writeSpans_cons base message spans cursor hspan hstop]
    omega

/-- Where a span begins before its neighbour has ended, some text is written again. -/
theorem length_writeSpans_overlap (base : Attributes) (message : List Byte) {last : ℕ}
    {s t : Span Attributes} {post : List (Span Attributes)} (hlt : t.start < s.stop) :
    ∀ (pre : List (Span Attributes)) (cursor : ℕ),
      (∀ u ∈ pre ++ s :: t :: post, u.start < u.stop) →
      (∀ u ∈ pre ++ s :: t :: post, u.stop ≤ last) →
        last - cursor < (writeSpans base message 0 last (pre ++ s :: t :: post) cursor).length
  | [], cursor, hspans, hstops => by
    obtain ⟨hs, hspans⟩ := List.forall_mem_cons.mp hspans
    obtain ⟨ht, hpost⟩ := List.forall_mem_cons.mp hspans
    obtain ⟨hsstop, hstops⟩ := List.forall_mem_cons.mp hstops
    obtain ⟨htstop, hpoststop⟩ := List.forall_mem_cons.mp hstops
    have := length_writeSpans_ge base message post t.stop hpost hpoststop
    rw [List.nil_append, length_writeSpans_cons base message _ cursor hs hsstop,
      length_writeSpans_cons base message _ s.stop ht htstop]
    omega
  | span :: pre, cursor, hspans, hstops => by
    obtain ⟨hspan, htail⟩ := List.forall_mem_cons.mp hspans
    obtain ⟨hstop, hstops'⟩ := List.forall_mem_cons.mp hstops
    have := length_writeSpans_overlap base message hlt pre span.stop htail hstops'
    rw [List.cons_append, length_writeSpans_cons base message _ cursor hspan hstop]
    omega

/-- Over overlapping spans, more bytes are written than the text has. -/
theorem writeStyledLogBody_overlapping (base : Attributes) (message : List Byte)
    {spans : List (Span Attributes)} (h : Span.Overlapping spans) {last : ℕ}
    (hstops : ∀ s ∈ spans, s.stop ≤ last) :
    last < (writeStyledLogBody base message spans 0 last).length := by
  obtain ⟨pre, s, t, post, rfl, hlt⟩ := h.overlap
  exact length_writeSpans_overlap base message hlt pre 0 h.nonempty hstops

end Style

end NgLog
