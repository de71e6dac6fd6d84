import NgLog.Message.Flush
import NgLog.Style.History

/-!
# A message on a terminal

`ColoredWriteToStderrOrStdoutWithFields` colors each field of a default prefix on its own. It finds
the fields by the lengths that `AppendDefaultPrefix` has recorded, with the blanks between them, and
leaves the body to `WriteStyledLogBody`. The fields are written once each, for the recorded lengths
partition the prefix; and so is the body, unless its styles overlap.

What is written is the list of bytes with their colors, without the escape sequences and hyperlinks.

## Main definitions

* `coloredWriteWithFields` — the function
* `BodyItem`, `streamAfter`, `styleCalls` — the body of a message, as it is streamed
* `WritesMessage` — each byte of the message is written once, in order

## Main results

* `coloredWriteWithFields_ordered` — over styles that do not overlap
* `coloredWriteWithFields_overlapping` — over styles that do
* `writesMessage_iff` — when each byte is written once
* `repeats_body` — two styles that are left open
-/

namespace NgLog

namespace Message

open Style
open Transition (run Along)

variable {Color : Type}

/-! ### The function -/

/-- The colors of a theme, and which of them change nothing. -/
structure Theme (Color : Type) where
  severity : Severity → Color
  shellCommand : Color
  logThreadId : Color
  logFileLine : Color
  logBracket : Color
  isDefault : Color → Bool

/-- What is written to the terminal. -/
abbrev Output (Color : Type) : Type := List (Byte × Option (StoredAttributes Color))

/-- `formatter.Write(message + pos, len)`, or `WriteUtf8` of this. -/
def formatterWrite (message : List Byte) (pos len : ℕ) : Output Color :=
  labelled (fun _ => none) message pos (pos + len)

/-- `WriteStyledLogField` with a color, for `message + pos` and `len`. -/
def writeField (color : Color) (message : List Byte) (pos len : ℕ) : Output Color :=
  (writeStyledLogField (⟨color, none⟩ : StoredAttributes Color) message pos (pos + len)).map
    fun (byte, attributes) => (byte, some attributes)

/-- `WriteStyledLogBody` for the rest of the message. -/
def writeBody (color : Color) (message : List Byte)
    (spans : List (Span (StoredAttributes Color))) (pos len : ℕ) : Output Color :=
  (writeStyledLogBody ⟨color, none⟩ message spans pos len).map
    fun (byte, attributes) => (byte, some attributes)

/-- The color mode of a stream. -/
inductive ColorMode
  | none
  | ansi
  | legacyConsole

/-- `ColoredWriteToStderrOrStdoutWithFields` for a message with a default prefix. -/
def coloredWriteWithFields (theme : Theme Color) (mode : ColorMode) (severity : Severity)
    (lengths : PrefixLengths) (spans : List (Span (StoredAttributes Color))) (message : List Byte) :
    Output Color :=
  let len := message.length
  match mode with
  | .none => formatterWrite message 0 len
  | .ansi | .legacyConsole =>
    let textSpec := theme.severity severity
    let pos := 0
    let severityField := writeField textSpec message pos lengths.severityLen
    let pos := pos + lengths.severityLen
    let timestampField := writeField theme.shellCommand message pos lengths.timestampLen
    let pos := pos + lengths.timestampLen
    let blank := formatterWrite message pos 1
    let pos := pos + 1
    let threadidField := writeField theme.logThreadId message pos lengths.threadidLen
    let pos := pos + lengths.threadidLen
    let blank' := formatterWrite message pos 1
    let pos := pos + 1
    let filelineField := writeField theme.logFileLine message pos lengths.filelineLen
    let pos := pos + lengths.filelineLen
    let bracket := writeField theme.logBracket message pos 1
    let pos := pos + 1
    let blank'' := formatterWrite message pos 1
    let pos := pos + 1
    severityField ++ timestampField ++ blank ++ threadidField ++ blank' ++ filelineField ++
      bracket ++ blank'' ++
      if theme.isDefault textSpec ∧ spans.isEmpty then formatterWrite message pos (sizeSub len pos)
      else writeBody textSpec message spans pos len

/-- The bytes of what is written. -/
def written (output : Output Color) : List Byte := output.map Prod.fst

/-! ### The bytes that are written -/

/-- The bytes of a range of the message. -/
def bytesIn (message : List Byte) (first last : ℕ) : List Byte :=
  (List.range' first (last - first)).map fun i => message.getD i 0

theorem written_labelled {Attributes : Type} (f : ℕ → Attributes) (message : List Byte)
    (first last : ℕ) :
    (labelled f message first last).map Prod.fst = bytesIn message first last := by
  rw [labelled, List.map_map]
  rfl

theorem bytesIn_append (message : List Byte) {a b c : ℕ} (hab : a ≤ b) (hbc : b ≤ c) :
    bytesIn message a b ++ bytesIn message b c = bytesIn message a c := by
  rw [← written_labelled (fun _ => ()), ← written_labelled (fun _ => ()),
    ← written_labelled (fun _ => ()), ← List.map_append, labelled_append _ message hab hbc]

theorem bytesIn_all (message : List Byte) : bytesIn message 0 message.length = message := by
  refine List.ext_getElem ?_ fun i hi hi' => ?_
  · rw [bytesIn, List.length_map, List.length_range', Nat.sub_zero]
  · simp [bytesIn, List.getD_eq_getElem?_getD, hi']

theorem written_formatterWrite (message : List Byte) (pos len : ℕ) :
    written (formatterWrite message pos len : Output Color) = bytesIn message pos (pos + len) :=
  written_labelled _ message pos (pos + len)

theorem written_writeField (color : Color) (message : List Byte) (pos len : ℕ) :
    written (writeField color message pos len) = bytesIn message pos (pos + len) := by
  rw [written, writeField, List.map_map]
  exact written_labelled (fun _ => (⟨color, none⟩ : StoredAttributes Color)) message pos (pos + len)

/-- The length of a prefix with fields of these lengths. -/
def PrefixLengths.total (lengths : PrefixLengths) : ℕ :=
  lengths.severityLen + lengths.timestampLen + 1 + lengths.threadidLen + 1 +
    lengths.filelineLen + 1 + 1

theorem written_append (output output' : Output Color) :
    written (output ++ output') = written output ++ written output' := List.map_append

/-- The prefix is written once, and then the body. -/
theorem written_coloredWriteWithFields (theme : Theme Color) {mode : ColorMode}
    (hmode : mode ≠ .none) (severity : Severity) (lengths : PrefixLengths)
    (spans : List (Span (StoredAttributes Color))) (message : List Byte) :
    written (coloredWriteWithFields theme mode severity lengths spans message) =
      bytesIn message 0 lengths.total ++
        if theme.isDefault (theme.severity severity) ∧ spans.isEmpty then
          bytesIn message lengths.total (lengths.total + sizeSub message.length lengths.total)
        else written (writeBody (theme.severity severity) message spans lengths.total
          message.length) := by
  have hfields : coloredWriteWithFields theme mode severity lengths spans message =
      coloredWriteWithFields theme .ansi severity lengths spans message := by
    cases mode with
    | none => exact absurd rfl hmode
    | ansi => rfl
    | legacyConsole => rfl
  rw [hfields, coloredWriteWithFields]
  simp only [written_append, written_writeField, written_formatterWrite, Nat.zero_add]
  -- Each field begins where the one before it ends.
  rw [bytesIn_append _ (by omega) (by omega), bytesIn_append _ (by omega) (by omega),
    bytesIn_append _ (by omega) (by omega), bytesIn_append _ (by omega) (by omega),
    bytesIn_append _ (by omega) (by omega), bytesIn_append _ (by omega) (by omega),
    bytesIn_append _ (by omega) (by omega), ← PrefixLengths.total]
  split
  · rw [written_formatterWrite]
  · rfl

section Spans

variable (theme : Theme Color) (severity : Severity) {lengths : PrefixLengths}
  {spans : List (Span (StoredAttributes Color))} {message : List Byte}

/-- Without colors. -/
theorem written_plain (lengths : PrefixLengths) (spans : List (Span (StoredAttributes Color)))
    (message : List Byte) :
    written (coloredWriteWithFields theme .none severity lengths spans message) = message := by
  rw [coloredWriteWithFields, written_formatterWrite, Nat.zero_add, bytesIn_all]

theorem written_writeBody (color : Color) (message : List Byte)
    (spans : List (Span (StoredAttributes Color))) (pos len : ℕ) :
    written (writeBody color message spans pos len) =
      (writeStyledLogBody (⟨color, none⟩ : StoredAttributes Color) message spans pos len).map
        Prod.fst := by
  rw [written, writeBody, List.map_map]
  rfl

/-- Over styles that do not overlap, every byte is written once, in order. -/
theorem coloredWriteWithFields_ordered (mode : ColorMode) (hordered : Span.Ordered spans)
    (hlen : lengths.total ≤ message.length) (hsize : message.length < sizeModulus) :
    written (coloredWriteWithFields theme mode severity lengths spans message) = message := by
  by_cases hmode : mode = .none
  · rw [hmode, written_plain]
  rw [written_coloredWriteWithFields theme hmode]
  have hbody : (if theme.isDefault (theme.severity severity) ∧ spans.isEmpty then
      bytesIn message lengths.total (lengths.total + sizeSub message.length lengths.total)
    else written (writeBody (theme.severity severity) message spans lengths.total message.length)) =
      bytesIn message lengths.total message.length := by
    split
    · rw [sizeSub_of_le hlen hsize, Nat.add_sub_cancel' hlen]
    · rw [written_writeBody, writeStyledLogBody_ordered _ message hordered hlen, written_labelled]
  rw [hbody, bytesIn_append message (Nat.zero_le _) hlen, bytesIn_all]

/-- Where no span begins before the range, its beginning does not matter to the loop. -/
theorem writeSpans_first {Attributes : Type} (base : Attributes) (message : List Byte)
    {first last : ℕ} {spans : List (Span Attributes)} (hstart : ∀ s ∈ spans, first ≤ s.start)
    (hnonempty : ∀ s ∈ spans, s.start < s.stop) (cursor : ℕ) :
    writeSpans base message first last spans cursor =
      writeSpans base message 0 last spans cursor := by
  induction spans generalizing cursor with
  | nil => rfl
  | cons span spans ih =>
    obtain ⟨hspan, hstart⟩ := List.forall_mem_cons.mp hstart
    obtain ⟨hspan', hnonempty⟩ := List.forall_mem_cons.mp hnonempty
    have hfirst : ¬span.stop ≤ first := by omega
    have hzero : ¬span.stop ≤ 0 := by omega
    rw [writeSpans, writeSpans, if_neg hfirst, if_neg hzero, Nat.max_eq_left hspan,
      Nat.max_eq_left (Nat.zero_le _)]
    simp only [ih hstart hnonempty]

/-- Over styles of the body that overlap, some of it is written again. -/
theorem coloredWriteWithFields_overlapping {mode : ColorMode} (hmode : mode ≠ .none)
    (hoverlapping : Span.Overlapping spans) (hstart : ∀ s ∈ spans, lengths.total ≤ s.start)
    (hstop : ∀ s ∈ spans, s.stop ≤ message.length) :
    written (coloredWriteWithFields theme mode severity lengths spans message) ≠ message := by
  intro hmessage
  rw [written_coloredWriteWithFields theme hmode] at hmessage
  have hne : ¬spans.isEmpty = true := by
    obtain ⟨pre, s, t, post, rfl, -⟩ := hoverlapping.overlap
    simp
  rw [if_neg fun h => hne h.2, written_writeBody] at hmessage
  have hbody : message.length - lengths.total < (writeStyledLogBody
      (⟨theme.severity severity, none⟩ : StoredAttributes Color) message spans lengths.total
        message.length).length := by
    obtain ⟨pre, s, t, post, rfl, hlt⟩ := hoverlapping.overlap
    rw [writeStyledLogBody, writeSpans_first _ message hstart hoverlapping.nonempty]
    exact length_writeSpans_overlap _ message hlt pre lengths.total hoverlapping.nonempty hstop
  have hlength := congrArg List.length hmessage
  rw [List.length_append, List.length_map, bytesIn, List.length_map, List.length_range'] at hlength
  omega

end Spans

/-! ### The body -/

/-- What is done to the stream of a message behind the prefix. -/
inductive BodyItem (Color : Type)
  | write (data : List Byte)
  | pushStyle (attributes : TextAttributes Color)
  | popStyle

/-- The stream after the body. -/
def streamAfter (s : LogStream) : List (BodyItem Color) → LogStream
  | [] => s
  | .write data :: items => streamAfter (s.append data) items
  | .pushStyle _ :: items => streamAfter s items
  | .popStyle :: items => streamAfter s items

/-- The calls of the recorder that `PushStyle` and `PopStyle` make. -/
def styleCalls (s : LogStream) : List (BodyItem Color) → List (Call Color)
  | [] => []
  | .write data :: items => styleCalls (s.append data) items
  | .pushStyle attributes :: items => .push s.pcount attributes :: styleCalls s items
  | .popStyle :: items => .pop s.pcount :: styleCalls s items

theorem InOrder.of_le {last first first' : ℕ} {calls : List (Call Color)} (hle : first' ≤ first)
    (h : InOrder last first calls) : InOrder last first' calls := by
  cases calls with
  | nil => exact Nat.le_trans hle h
  | cons c calls => exact ⟨h.1, Nat.le_trans hle h.2.1, h.2.2⟩

/-- The calls are made at the offsets that the stream has reached. -/
theorem inOrder_styleCalls (items : List (BodyItem Color)) (s : LogStream) :
    InOrder (streamAfter s items).pcount s.pcount (styleCalls s items) := by
  induction items generalizing s with
  | nil => exact Nat.le_refl _
  | cons item items ih =>
    cases item with
    | write data => exact InOrder.of_le (s.pcount_le_append data) (ih (s.append data))
    | pushStyle attributes => exact ⟨nofun, Nat.le_refl _, ih s⟩
    | popStyle => exact ⟨nofun, Nat.le_refl _, ih s⟩

/-- The styles of the recorder are those of the text from an offset on. -/
structure StartsFrom (first : ℕ) (r : Recorder Color) : Prop where
  spans : ∀ s ∈ r.spans, first ≤ s.start
  active : ∀ style ∈ r.active, first ≤ style.start

section StartsFrom

variable {first : ℕ} {r r' : Recorder Color}

theorem startsFrom_init (storage : ℕ → Byte) :
    StartsFrom first (Recorder.init storage : Recorder Color) :=
  ⟨fun _ hs => absurd hs List.not_mem_nil, fun _ hs => absurd hs List.not_mem_nil⟩

theorem startsFrom_disable (r : Recorder Color) : StartsFrom first r.disable := ⟨nofun, nofun⟩

theorem StartsFrom.addSpan (h : StartsFrom first r) {start stop : ℕ}
    {attributes : StoredAttributes Color} (hstart : first ≤ start)
    (hadd : r.addSpan start stop attributes = some r') : StartsFrom first r' := by
  rcases spans_of_addSpan hadd with ⟨-, rfl⟩ | ⟨-, rfl⟩
  · exact h
  · exact ⟨List.forall_mem_append.mpr ⟨h.spans, List.forall_mem_singleton.mpr hstart⟩, h.active⟩

theorem StartsFrom.suspend (h : StartsFrom first r) {offset : ℕ} (hoffset : first ≤ offset)
    (hsuspend : r.suspend offset = some r') : StartsFrom first r' := by
  rw [Recorder.suspend] at hsuspend
  split at hsuspend
  · exact Option.some.inj hsuspend ▸ h
  · rename_i current outer hactive
    obtain ⟨r₁, hadd, hr₁⟩ := Option.bind_eq_some_iff.mp hsuspend
    have hcurrent := h.active current (hactive ▸ List.mem_cons_self)
    have h₁ := h.addSpan hcurrent hadd
    cases hr₁
    exact ⟨h₁.spans, List.forall_mem_cons.mpr ⟨hoffset, fun style hs =>
      h.active style (hactive ▸ List.mem_cons_of_mem _ hs)⟩⟩

theorem StartsFrom.closeLoop {offset : ℕ} : ∀ (styles : List (ActiveStyle Color))
    (r : Recorder Color), StartsFrom first r → (∀ style ∈ styles, first ≤ style.start) →
      StartsFrom first (Recorder.closeLoop offset styles r)
  | [], _, h, _ => h
  | current :: outer, r, h, hstyles => by
    obtain ⟨hcurrent, houter⟩ := List.forall_mem_cons.mp hstyles
    rw [Recorder.closeLoop]
    rcases hadd : r.addSpan current.start offset current.attributes with _ | r₁
    · exact startsFrom_disable r
    · exact closeLoop outer { r₁ with active := outer } ⟨(h.addSpan hcurrent hadd).spans, houter⟩
        houter

/-- Every call leaves the styles behind the offset. -/
theorem StartsFrom.step (h : StartsFrom first r) {c : Call Color} (hreset : c ≠ .reset)
    (hoffset : first ≤ c.offset) (hstep : step r c = some r') : StartsFrom first r' := by
  cases c with
  | reset => exact absurd rfl hreset
  | push offset attributes =>
    simp only [Style.step, Recorder.push] at hstep
    split at hstep
    · exact Option.some.inj hstep ▸ h
    split at hstep
    · exact Option.some.inj hstep ▸ startsFrom_disable r
    rcases hsuspend : r.suspend offset with _ | r₁
    · simp only [hsuspend] at hstep
      exact Option.some.inj hstep ▸ startsFrom_disable r
    have h₁ := h.suspend hoffset hsuspend
    rcases hstore : r₁.storeAttributes attributes with _ | ⟨_ | stored, r₂⟩
    · simp only [hsuspend, hstore] at hstep
      cases hstep
    · simp only [hsuspend, hstore] at hstep
      exact Option.some.inj hstep ▸ startsFrom_disable r₂
    · simp only [hsuspend, hstore] at hstep
      obtain ⟨-, hspans, hactive, -⟩ := stored_of_storeAttributes hstore
      cases hstep
      exact ⟨hspans.symm ▸ h₁.spans, List.forall_mem_cons.mpr ⟨hoffset, hactive.symm ▸ h₁.active⟩⟩
  | pop offset =>
    simp only [Style.step, Recorder.pop, Option.some.injEq] at hstep
    subst hstep
    split
    · exact h
    split
    · exact h
    rename_i current outer hactive
    have hcurrent := h.active current (hactive ▸ List.mem_cons_self)
    have houter : ∀ style ∈ outer, first ≤ style.start := fun style hs =>
      h.active style (hactive ▸ List.mem_cons_of_mem _ hs)
    rcases hadd : r.addSpan current.start offset current.attributes with _ | r₁
    · exact startsFrom_disable r
    · refine ⟨(h.addSpan hcurrent hadd).spans, ?_⟩
      cases outer with
      | nil => exact fun _ hmem => absurd hmem List.not_mem_nil
      | cons next rest =>
        obtain ⟨-, hrest⟩ := List.forall_mem_cons.mp houter
        exact List.forall_mem_cons.mpr ⟨hoffset, hrest⟩
  | close offset =>
    simp only [Style.step, Recorder.close, Option.some.injEq] at hstep
    subst hstep
    split
    · exact h
    · exact StartsFrom.closeLoop r.active r h h.active

theorem startsFrom_run {last : ℕ} : ∀ {calls : List (Call Color)} {now : ℕ} {r r' : Recorder Color},
    first ≤ now → InOrder last now calls → StartsFrom first r → run step r calls = some r' →
      StartsFrom first r'
  | [], _, _, _, _, _, h, hrun => Option.some.inj hrun ▸ h
  | c :: calls, now, r, r', hfirst, horder, h, hrun => by
    obtain ⟨hreset, hle, horder⟩ := horder
    obtain ⟨r₁, hstep, hrun⟩ := Transition.run_cons_eq_some.mp hrun
    have hoffset : first ≤ c.offset := Nat.le_trans hfirst hle
    exact startsFrom_run hoffset horder (h.step hreset hoffset hstep) hrun

end StartsFrom

/-! ### Each byte once -/

/-- A default prefix whose base name is not too long for the array. -/
structure ShortPrefixValues extends PrefixValues where
  basename_lt : basename.length < 4096

/-- The lengths are those of fields that make up the text. -/
def Partitions (text : List Byte) (lengths : PrefixLengths) : Prop :=
  ∃ fields : PrefixFields, text = fields.text ∧ lengths = fields.lengths

/-- A short prefix fits, and the recorded lengths partition it. -/
theorem appendDefaultPrefix_partitions (buffer : MessageText) (values : ShortPrefixValues) :
    ∃ s lengths, appendDefaultPrefix (LogStream.init buffer) values.toPrefixValues = some
      (s, lengths) ∧
      Partitions s.text lengths ∧ s.pcount < 4096 + 1300 := by
  obtain ⟨fields, pieces, hpieces, hlength, hspec⟩ := appendDefaultPrefix_spec values.toPrefixValues
  obtain ⟨lengths, hprefix, hlengths⟩ := hspec (LogStream.init buffer)
  have hcapacity : 4096 + 1300 ≤ streamCapacity := by decide
  have hfits : fields.text.length ≤ streamCapacity := by
    have hbasename := values.basename_lt
    omega
  have htext : ((LogStream.init buffer).appendAll pieces).text = fields.text := by
    have hinit : (LogStream.init buffer).text = [] := List.take_zero
    rw [LogStream.text_appendAll, hinit, hpieces, List.nil_append, List.take_of_length_le hfits]
  refine ⟨_, lengths, hprefix, ⟨fields, htext, hlengths rfl hfits⟩, ?_⟩
  have hbasename := values.basename_lt
  rw [← LogStream.length_text, htext]
  omega

theorem Partitions.total_eq {text : List Byte} {lengths : PrefixLengths}
    (h : Partitions text lengths) :
    lengths.total = text.length := by
  obtain ⟨fields, rfl, rfl⟩ := h
  have hblank : (bytes " ").length = 1 ∧ (bytes "] ").length = 2 := by decide
  rw [PrefixLengths.total, PrefixFields.text, PrefixFields.lengths]
  simp only [List.length_append]
  omega

/-- What `Flush` makes of the body: the text with a newline at its end. -/
def finalMessage (s : LogStream) (items : List (BodyItem Color)) : List Byte :=
  terminated (streamAfter s items).text

/-- The calls of the recorder, with that of `Flush` at the end. -/
def allCalls (s : LogStream) (items : List (BodyItem Color)) : List (Call Color) :=
  styleCalls s items ++ [Call.close (streamAfter s items).pcount]

/-- The message is written to a terminal of any color mode with each byte once, in order. -/
def WritesMessage (storage : ℕ → Byte) (theme : Theme Color) (severity : Severity)
    (lengths : PrefixLengths) (s : LogStream) (items : List (BodyItem Color)) : Prop :=
  ∃ r, run step (Recorder.init storage) (allCalls s items) = some r ∧ ∀ mode,
    written (coloredWriteWithFields theme mode severity lengths r.spans (finalMessage s items)) =
      finalMessage s items

theorem pcount_le_streamAfter (s : LogStream) (items : List (BodyItem Color)) :
    s.pcount ≤ (streamAfter s items).pcount := (inOrder_styleCalls items s).le

theorem pcount_le_finalMessage (s : LogStream) (items : List (BodyItem Color)) :
    (streamAfter s items).pcount ≤ (finalMessage s items).length := by
  rw [← LogStream.length_text]
  exact le_length_terminated _

/-- The styles are recorded, and do not overlap: no target is copied past the storage, and no
`Close` overlaps unless the recorder is disabled in the end. -/
def StylesApart (storage : ℕ → Byte) (calls : List (Call Color)) : Prop :=
  Along step (fun r c => ¬Overfull r c) (Recorder.init storage) calls ∧
    ∀ r, run step (Recorder.init storage) calls = some r →
      r.disabled = true ∨ Along step (fun r c => ¬Overlaps r c) (Recorder.init storage) calls

theorem writesMessage_of_partitions (storage : ℕ → Byte) (theme : Theme Color) (severity : Severity)
    {lengths : PrefixLengths} {s : LogStream} (hlengths : Partitions s.text lengths)
    (items : List (BodyItem Color)) :
    WritesMessage storage theme severity lengths s items ↔
    StylesApart storage (allCalls s items) := by
  have htotal : lengths.total = s.pcount := hlengths.total_eq.trans s.length_text
  have hstream := pcount_le_streamAfter s items
  have hmessage := pcount_le_finalMessage s items
  have hsize : (finalMessage s items).length < sizeModulus := by
    have hle := length_terminated_le (streamAfter s items)
    have hcapacity : streamCapacity + 1 < sizeModulus := by decide
    exact Nat.lt_of_le_of_lt hle hcapacity
  have horder : InOrder (streamAfter s items).pcount s.pcount (allCalls s items) :=
    (inOrder_styleCalls items s).close
  have hzero : InOrder (streamAfter s items).pcount 0 (allCalls s items) :=
    InOrder.of_le (Nat.zero_le _) horder
  constructor
  · rintro ⟨r, hrun, hwritten⟩
    refine ⟨Transition.along_of_run storageOk_step (storageOk_init storage) hrun, ?_⟩
    intro r' hrun'
    obtain rfl : r = r' := Option.some.inj (hrun.symm.trans hrun')
    rcases tracks_run hzero (tracks_init storage) hrun with hoff | ⟨-, halong⟩ | ⟨hbroken, -⟩
    · exact .inl hoff.disabled
    · exact .inr halong
    · have hfrom : StartsFrom s.pcount r :=
        startsFrom_run (Nat.le_refl _) horder (startsFrom_init storage) hrun
      refine absurd (hwritten .ansi) (coloredWriteWithFields_overlapping theme severity nofun
        hbroken.overlapping (fun span hspan => ?_) fun span hspan => ?_)
      · exact htotal ▸ hfrom.spans span hspan
      · exact Nat.le_trans (hbroken.before span hspan) hmessage
  · rintro ⟨hfull, hgood⟩
    obtain ⟨r, hrun, -⟩ := Transition.run_enabled storageOk_enabled hfull (storageOk_init storage)
    have hordered : Span.Ordered r.spans := by
      rcases tracks_run hzero (tracks_init storage) hrun with hoff | ⟨htracks, -⟩ | ⟨hbroken, hbad⟩
      · exact hoff.spans ▸ Span.ordered_nil
      · exact htracks.shown.ordered
      · rcases hgood r hrun with hdisabled | halong
        · cases hbroken.enabled.symm.trans hdisabled
        · exact absurd halong hbad
    exact ⟨r, hrun, fun mode => coloredWriteWithFields_ordered theme severity mode hordered
      (by omega) hsize⟩

/-- For all values of a default prefix with a base name of less than 4096 bytes, and every body: the
recorded lengths partition the prefix, the position behind it is not behind the message, and each
byte of the message is written once, in order, with colors as without, if and only if the styles of
the body do not overlap. -/
theorem writesMessage_iff (storage : ℕ → Byte) (theme : Theme Color) (buffer : MessageText)
    (values : ShortPrefixValues) (items : List (BodyItem Color)) :
    ∃ s lengths, appendDefaultPrefix (LogStream.init buffer) values.toPrefixValues = some
      (s, lengths) ∧
      (Partitions s.text lengths ∧ lengths.total ≤ (finalMessage s items).length ∧
          WritesMessage storage theme values.severity lengths s items ↔
        StylesApart storage (allCalls s items)) := by
  obtain ⟨s, lengths, hprefix, hlengths, -⟩ := appendDefaultPrefix_partitions buffer values
  refine ⟨s, lengths, hprefix, ?_⟩
  rw [writesMessage_of_partitions storage theme values.severity hlengths]
  have hstream := pcount_le_streamAfter s items
  have hmessage := pcount_le_finalMessage s items
  have htotal : lengths.total = s.pcount := hlengths.total_eq.trans s.length_text
  exact ⟨fun h => h.2.2, fun h => ⟨hlengths, by omega, h⟩⟩

/-- Two styles that are both open at the end, with text behind the start of each, are not apart. -/
theorem not_stylesApart (storage : ℕ → Byte) {p q e : ℕ} (hpq : p < q) (hqe : q < e) (a b : Color) :
    ¬StylesApart storage [.push p ⟨a, none⟩, .push q ⟨b, none⟩, .close e] := by
  have hspans : kMaxSpans = 256 := rfl
  have hfirst : step (Recorder.init storage) (.push p ⟨a, none⟩) =
      some { (Recorder.init storage : Recorder Color) with active := [⟨p, ⟨a, none⟩⟩] } := rfl
  have hsecond : step { (Recorder.init storage : Recorder Color) with active := [⟨p, ⟨a, none⟩⟩] }
    (.push q ⟨b, none⟩) =
      some { (Recorder.init storage : Recorder Color) with
        spans := [⟨p, q, ⟨a, none⟩⟩], active := [⟨q, ⟨b, none⟩⟩, ⟨q, ⟨a, none⟩⟩] } := by
    simp [step, Recorder.push, Recorder.suspend, Recorder.addSpan, Recorder.storeAttributes,
      Recorder.init, hspans, Nat.not_le_of_lt hpq]
  have hthird : step { (Recorder.init storage : Recorder Color) with
      spans := [⟨p, q, ⟨a, none⟩⟩], active := [⟨q, ⟨b, none⟩⟩, ⟨q, ⟨a, none⟩⟩] } (.close e) =
      some { (Recorder.init storage : Recorder Color) with
        spans := [⟨p, q, ⟨a, none⟩⟩, ⟨q, e, ⟨b, none⟩⟩, ⟨q, e, ⟨a, none⟩⟩] } := by
    simp [step, Recorder.close, Recorder.closeLoop, Recorder.addSpan, Recorder.init, hspans,
      Nat.not_le_of_lt hqe]
  rintro ⟨-, hapart⟩
  have hrun :=
    Transition.run_cons_eq_some.mpr ⟨_, hfirst, Transition.run_cons_eq_some.mpr ⟨_, hsecond,
      Transition.run_singleton.trans hthird⟩⟩
  rcases hapart _ hrun with hdisabled | halong
  · exact Bool.false_ne_true hdisabled
  · have hafter :=
      (Transition.along_cons.mp ((Transition.along_cons.mp halong).2 _ hfirst)).2 _ hsecond
    exact (Transition.along_cons.mp hafter).1 ⟨rfl, _, _, rfl, _, rfl, hqe⟩

/-- Two styles that are left open in the body: `Close` ends both, and the text of the inner one is
written twice. -/
theorem repeats_body :
    let buffer : MessageText := ⟨List.replicate bufferSize 0, List.length_replicate⟩
    let values : ShortPrefixValues :=
      { severity := .info, time := ⟨126, 0, 1, 0, 0, 0, 0⟩, yearInPrefix := true
        threadId := ⟨bytes "1", by decide⟩, basename := bytes "a.cc", line := 1
        basename_lt := by decide }
    let theme : Theme ℕ := ⟨fun _ => 0, 0, 0, 0, 0, fun _ => false⟩
    ∃ s lengths, appendDefaultPrefix (LogStream.init buffer) values.toPrefixValues = some
      (s, lengths) ∧
      ¬WritesMessage (fun _ => 0) theme values.severity lengths s
        [.pushStyle ⟨1, none⟩, .write (bytes "he"), .pushStyle ⟨2, none⟩,
          .write (bytes "llo")] := by
  intro buffer values theme
  obtain ⟨s, lengths, hprefix, hlengths, hpcount⟩ := appendDefaultPrefix_partitions buffer values
  refine ⟨s, lengths, hprefix, ?_⟩
  rw [writesMessage_of_partitions _ _ _ hlengths]
  have hroom : s.pcount + 5 ≤ streamCapacity := by
    have hcapacity : 4096 + 1300 + 5 ≤ streamCapacity := by decide
    omega
  have hfirst : (s.append (bytes "he")).pcount = s.pcount + 2 := by
    show s.pcount + min 2 (streamCapacity - s.pcount) = s.pcount + 2
    omega
  have hsecond : ((s.append (bytes "he")).append (bytes "llo")).pcount = s.pcount + 5 := by
    show (s.append (bytes "he")).pcount +
      min 3 (streamCapacity - (s.append (bytes "he")).pcount) = s.pcount + 5
    omega
  refine not_stylesApart _ ?_ ?_ 1 2
  · omega
  · show (s.append (bytes "he")).pcount < ((s.append (bytes "he")).append (bytes "llo")).pcount
    omega

end Message

end NgLog
