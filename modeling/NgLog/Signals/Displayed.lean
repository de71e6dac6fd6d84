import NgLog.Signals.Report

/-!
# What is shown of a failure report

The report is written in colors and with hyperlinks if the standard error is a terminal that reads
them. Such a terminal shows the same text as is written without them, and is left with nothing
selected. Since the handlers write one report at a time, that holds of all that has been reported,
however the signals come.

## Main definitions

* `reportText` — the text of the report
* `Environment.Printable` — what the report quotes starts no control sequence
* `Occurrence` — what a report is about

## Main results

* `handleSignal_shows_text` — the same text in all modes
* `reports_displayed` — the reports of a run of the handlers
-/

namespace NgLog

namespace Signals

open Message (ColorMode)
open Terminal (escape)
open Numeral (numeral)
open Styled
open SourceLocation

variable {env : Environment}

/-- The text of the report. -/
def reportText (env : Environment) (signalNumber : ℤ) (siginfo : Siginfo) (pc : UInt64)
    (stack : List UInt64) : List Byte :=
  (reportFields env signalNumber siginfo pc stack).flatMap Field.text

/-- The environment without colors and hyperlinks. -/
def Environment.uncolored (env : Environment) : Environment :=
  { env with stderrColorMode := .none, stderrHyperlinks := false, symbolizeHyperlinks := false }

/-- What the report quotes starts no control sequence. -/
structure Environment.Printable (env : Environment) : Prop where
  threadName : ∀ name ∈ env.threadName, escape ∉ name.text
  hostname : escape ∉ env.hostname.text
  symbols : ∀ address, ∀ s ∈ env.symbolize address, escape ∉ s.text.text

/-- A field starts no control sequence. -/
structure Field.Printable (field : Field) : Prop where
  text : escape ∉ field.text
  uri : ∀ uri ∈ field.uri, escape ∉ uri

theorem Field.Printable.plain {text : List Byte} (h : escape ∉ text) :
    (Field.plain text).Printable :=
  ⟨h, nofun⟩

theorem Field.Printable.styled {text : List Byte} (h : escape ∉ text) (role : Role) :
    (Field.styled role text).Printable := ⟨h, nofun⟩

theorem contentOf_fieldWrites (mode : ColorMode) (fields : List Field) :
    contentOf (fieldWrites mode fields) = fields.flatMap Field.text := by
  induction fields with
  | nil => rfl
  | cons field fields ih =>
    rw [fieldWrites_cons, contentOf_append, ih, List.flatMap_cons, Field.writes]
    cases field.role with
    | none => simp [contentOf]
    | some role => rw [content_writeStyledField]

theorem displays_field (mode : ColorMode) {field : Field} (h : field.Printable) :
    Displays (field.writes mode) (field.cells mode) := by
  rw [Field.writes, Field.cells]
  cases field.role with
  | none => exact displays_content h.text
  | some role => exact displays_writeStyledField _ mode h.uri h.text

theorem displays_fieldWrites (mode : ColorMode) {fields : List Field}
    (h : ∀ field ∈ fields, field.Printable) :
    Displays (fieldWrites mode fields) (fields.flatMap (Field.cells mode)) := by
  induction fields with
  | nil => exact displays_nil
  | cons field fields ih =>
    obtain ⟨hfield, hfields⟩ := List.forall_mem_cons.mp h
    exact (displays_field mode hfield).append (ih hfields)

theorem escape_notMem_numeral {base : ℕ} (hbase : 1 < base) (hsmall : base ≤ 16) (n : ℕ) :
    escape ∉ numeral base n := fun hmem => by
  have hdigit := Numeral.isDigit_of_mem_numeral hbase hsmall escape hmem
  cases hdigit

theorem escape_notMem_decimalText (number : ℤ) : escape ∉ decimalText number :=
  escape_notMem_numeral (by decide) (by decide) _

theorem escape_notMem_hexText (number : UInt64) : escape ∉ hexText number := by
  rw [hexText, List.mem_append, not_or]
  exact ⟨by decide +kernel, escape_notMem_numeral (by decide) (by decide) _⟩

/-- No field starts a control sequence. -/
def AllPrintable (fields : List Field) : Prop := ∀ field ∈ fields, field.Printable

theorem AllPrintable.nil : AllPrintable [] := List.forall_mem_nil _

theorem AllPrintable.cons {field : Field} {fields : List Field} (h : field.Printable)
    (h' : AllPrintable fields) : AllPrintable (field :: fields) :=
  List.forall_mem_cons.mpr ⟨h, h'⟩

theorem AllPrintable.append {fields fields' : List Field} (h : AllPrintable fields)
    (h' : AllPrintable fields') : AllPrintable (fields ++ fields') :=
  List.forall_mem_append.mpr ⟨h, h'⟩

theorem AllPrintable.ite {fields : List Field} (h : AllPrintable fields) (condition : Bool) :
    AllPrintable (if condition then fields else []) := by
  cases condition with
  | false => exact .nil
  | true => exact h

theorem timeFields_printable (env : Environment) : AllPrintable (timeFields env) := by
  refine .cons (.plain (by decide +kernel)) ?_
  refine .cons (.styled (escape_notMem_decimalText _) _) ?_
  refine .cons (.plain (by decide +kernel)) ?_
  refine .cons (.styled ?_ _) (.cons (.plain (by decide +kernel)) .nil)
  rw [List.mem_append, not_or]
  exact ⟨by decide +kernel, escape_notMem_decimalText _⟩

theorem escape_notMem_name (signal : FailureSignal) : escape ∉ signal.name := by
  cases signal <;> decide +kernel

theorem escape_notMem_signalText (number : FailureSignal → ℤ) (signalNumber : ℤ) :
    escape ∉ signalText number signalNumber := by
  have hname : ∀ (signals : List FailureSignal) (name : Option (List Byte)),
      (∀ n ∈ name, escape ∉ n) → ∀ n ∈ signals.foldl (fun name signal =>
        if signalNumber = number signal then some signal.name else name) name, escape ∉ n := by
    intro signals
    induction signals with
    | nil => exact fun name h => h
    | cons signal signals ih =>
      refine fun name h => ih _ ?_
      dsimp only
      split
      · intro n hn
        rw [← Option.mem_some_iff.mp hn]
        exact escape_notMem_name signal
      · exact h
  rw [signalText]
  cases hfound : signalName number signalNumber with
  | none =>
    rw [Option.getD_none, List.mem_append, not_or]
    exact ⟨by decide +kernel, escape_notMem_decimalText _⟩
  | some name => exact hname _ none (fun n hn => absurd hn (Option.not_mem_none n)) name hfound

theorem signalFields_printable (h : env.Printable) (signalNumber : ℤ) (siginfo : Siginfo) :
    AllPrintable (signalFields env signalNumber siginfo) := by
  refine .append (.append (.append (.append (.append (.append ?_ (.ite ?_ _)) ?_) ?_) ?_)
    (.ite ?_ _)) ?_
  · exact .cons (.plain (by decide +kernel))
      (.cons (.styled (escape_notMem_signalText _ _) _) .nil)
  · exact .cons (.plain (by decide +kernel))
      (.cons (.styled (escape_notMem_hexText _) _)
        (.cons (.plain (by decide +kernel)) .nil))
  · refine .cons (.plain (by decide +kernel)) ?_
    refine .cons (.styled (escape_notMem_decimalText _) _) ?_
    refine .cons (.plain (by decide +kernel)) ?_
    refine .cons (.styled (escape_notMem_hexText _) _) ?_
    exact .cons (.plain (by decide +kernel))
      (.cons (.styled (escape_notMem_decimalText _) _) .nil)
  · cases hname : getThreadName env with
    | none => exact .nil
    | some name =>
      have hmem : name ∈ env.threadName := (Option.filter_eq_some_iff.mp hname).1
      exact .cons (.plain (by decide +kernel))
        (.cons (.styled (h.threadName name hmem) _)
          (.cons (.plain (by decide +kernel)) .nil))
  · exact .cons (.plain (by decide +kernel)) .nil
  · exact .cons (.plain (by decide +kernel))
      (.cons (.styled (escape_notMem_decimalText _) _)
        (.cons (.plain (by decide +kernel)) .nil))
  · exact .cons (.plain (by decide +kernel)) .nil

theorem escape_notMem_displayedText {span : List Byte} (h : escape ∉ span) :
    escape ∉ displayedText env.cwd span := by
  rw [displayedText]
  split
  · rename_i found _
    refine fun hmem => absurd (List.mem_of_mem_take hmem) ?_
    rw [List.mem_append, List.mem_append, not_or, not_or]
    exact ⟨⟨notMem_displayText (notMem_path h found) (by decide +kernel) (by decide +kernel) _ _,
      by decide +kernel⟩, notMem_lineText h found⟩
  · exact fun hmem => h (List.mem_of_mem_take hmem)

theorem symbolFields_printable {symbolized : Option Symbolized}
    (h : escape ∉ frameSymbol symbolized) {uri : Option (List Byte)}
    (huri : ∀ u ∈ uri, escape ∉ u) :
    AllPrintable (symbolFields env symbolized uri) := by
  have hblank : (Field.plain (bytes " ")).Printable := .plain (by decide)
  have htake : ∀ count, escape ∉ (frameSymbol symbolized).take count := fun count hmem =>
    h (List.mem_of_mem_take hmem)
  have hdrop : ∀ start, escape ∉ (frameSymbol symbolized).drop start := fun start hmem =>
    h (List.mem_of_mem_drop hmem)
  cases symbolized with
  | none => exact .cons (.styled h _) .nil
  | some s =>
    have hfile : Field.Printable ⟨displayedText env.cwd (frameSpan (some s)),
        some .kStackFile, uri⟩ :=
      ⟨escape_notMem_displayedText fun hmem => hdrop _ (List.mem_of_mem_take hmem), huri⟩
    rw [symbolFields]
    dsimp only
    split
    · split
      · exact .cons hfile (.cons hblank (.cons (.styled (htake _) _) .nil))
      · split
        · exact .cons hfile (.cons hblank (.cons
            (.styled (fun hmem => hdrop _ (List.mem_of_mem_drop hmem)) _) .nil))
        · exact .cons hfile (.cons (.styled (hdrop _) _) .nil)
    · exact .cons (.styled h _) .nil

theorem frameFields_printable (h : env.Printable) (hsize : 1024 ≤ env.platform.sizeMax)
    {linePrefix : List Byte} (hfront : escape ∉ linePrefix) (pc : UInt64) (kind : FrameAddress) :
    AllPrintable (frameFields env linePrefix pc kind) := by
  obtain ⟨uri, huri, hsafe⟩ :=
    frameUri_safe hsize (frameSpan (env.symbolize (symbolizedAddress pc kind)))
  have hsymbol : escape ∉ frameSymbol (env.symbolize (symbolizedAddress pc kind)) := by
    cases hfound : env.symbolize (symbolizedAddress pc kind) with
    | none => decide +kernel
    | some s => exact h.symbols _ s hfound
  rw [frameFields, huri]
  refine .append
    (.append (.cons (.plain ?_) (.cons (.styled ?_ _) (.cons (.plain (by decide)) .nil)))
    (symbolFields_printable hsymbol (hsafe h.hostname))) (.cons (.plain (by decide)) .nil)
  · rw [List.mem_append, not_or]
    exact ⟨hfront, by decide +kernel⟩
  · rw [addressText, List.mem_append, not_or]
    refine ⟨fun hmem => ?_, escape_notMem_hexText pc⟩
    exact absurd (List.eq_of_mem_replicate hmem) (by decide)

theorem reportFields_printable (h : env.Printable) (hsize : 1024 ≤ env.platform.sizeMax)
    (signalNumber : ℤ) (siginfo : Siginfo) (pc : UInt64) (stack : List UInt64) :
    AllPrintable (reportFields env signalNumber siginfo pc stack) := by
  refine .append (.append (.append (.append (timeFields_printable env)
    (signalFields_printable h _ _)) (frameFields_printable h hsize (by decide +kernel) _ _)) ?_) ?_
  · intro field hfield
    obtain ⟨frame, -, hfield⟩ := List.mem_flatMap.mp hfield
    exact frameFields_printable h hsize (by decide +kernel) _ _ field hfield
  · split
    · exact .cons (.plain (by decide +kernel)) .nil
    · exact .nil

/-! ### The same text in all modes -/

/-- The hyperlink is not part of the text. -/
theorem text_symbolFields (symbolized : Option Symbolized) (uri uri' : Option (List Byte)) :
    (symbolFields env symbolized uri).flatMap Field.text =
      (symbolFields env symbolized uri').flatMap Field.text := by
  cases symbolized with
  | none => rfl
  | some s =>
    rw [symbolFields, symbolFields]
    dsimp only
    split
    · split
      · rfl
      · split <;> rfl
    · rfl

theorem text_frameFields (linePrefix : List Byte) (pc : UInt64) (kind : FrameAddress) :
    (frameFields env.uncolored linePrefix pc kind).flatMap Field.text =
      (frameFields env linePrefix pc kind).flatMap Field.text := by
  rw [frameFields, frameFields, List.flatMap_append, List.flatMap_append, List.flatMap_append,
    List.flatMap_append, text_symbolFields]
  rfl

theorem reportText_uncolored (signalNumber : ℤ) (siginfo : Siginfo) (pc : UInt64)
    (stack : List UInt64) :
    reportText env.uncolored signalNumber siginfo pc stack =
      reportText env signalNumber siginfo pc stack := by
  have hstack : ∀ frames : List UInt64,
      (frames.flatMap fun frame => frameFields env.uncolored (bytes "    ") frame
        (if frame = pc then .kInstruction else .kReturnAddress)).flatMap Field.text =
      (frames.flatMap fun frame => frameFields env (bytes "    ") frame
        (if frame = pc then .kInstruction else .kReturnAddress)).flatMap Field.text := by
    intro frames
    rw [List.flatMap_assoc, List.flatMap_assoc]
    simp only [text_frameFields]
  simp only [reportText, reportFields, List.flatMap_append, text_frameFields, hstack]
  rfl

/-- Without colors nothing but the text is written. -/
theorem output_fieldWrites_none (fields : List Field) :
    output (fieldWrites .none fields) = fields.flatMap Field.text := by
  induction fields with
  | nil => rfl
  | cons field fields ih =>
    rw [fieldWrites_cons, output_append, ih, List.flatMap_cons, Field.writes]
    cases field.role with
    | none => simp [output, Write.text]
    | some role => rw [output_writeStyledField_none]

theorem mode_uncolored (env : Environment) : env.uncolored.mode = .none :=
  ite_self (c := env.writerIsDefault = true) ColorMode.none

theorem cells_text (mode : ColorMode) (fields : List Field) :
    (fields.flatMap (Field.cells mode)).map Prod.fst = fields.flatMap Field.text := by
  rw [List.map_flatMap]
  refine congrArg (fields.flatMap ·) (funext fun field => ?_)
  rw [Field.cells, List.map_map]
  exact List.map_id _

/-- For every environment, signal and stack: the report is written, and as content the same text as
without colors and hyperlinks. A terminal that reads them shows just this text, each field in its
color, and is left with nothing selected. -/
theorem handleSignal_shows_text (env : Environment) (hsize : 1024 ≤ env.platform.sizeMax)
    {signalNumber : ℤ} (hnumber : 0 ≤ signalNumber ∧ signalNumber < 2 ^ 31) (siginfo : Siginfo)
    (pc : UInt64) (stack : List UInt64) :
    ∃ writes plain, handleSignal env signalNumber siginfo pc stack = some writes ∧
      handleSignal env.uncolored signalNumber siginfo pc stack = some plain ∧
      output plain = reportText env signalNumber siginfo pc stack ∧
      contentOf writes = output plain ∧
      (env.Printable → ∃ cells, Displays writes cells ∧ cells.map Prod.fst = output plain) := by
  have hplain : output (fieldWrites env.uncolored.mode
      (reportFields env.uncolored signalNumber siginfo pc stack)) =
        reportText env signalNumber siginfo pc stack := by
    rw [mode_uncolored, output_fieldWrites_none]
    exact reportText_uncolored signalNumber siginfo pc stack
  refine ⟨_, _, handleSignal_eq env hsize hnumber siginfo pc stack,
    handleSignal_eq env.uncolored hsize hnumber siginfo pc stack, hplain, ?_, fun h => ?_⟩
  · rw [hplain]
    exact contentOf_fieldWrites env.mode _
  · rw [hplain]
    exact ⟨_, displays_fieldWrites env.mode (reportFields_printable h hsize _ _ _ _),
      cells_text env.mode _⟩

def usualNumber : FailureSignal → ℤ
  | .SIGSEGV => 11
  | .SIGILL => 4
  | .SIGFPE => 8
  | .SIGABRT => 6
  | .SIGBUS => 7
  | .SIGTERM => 15

theorem usualNumber_bounds (signal : FailureSignal) :
    0 ≤ usualNumber signal ∧ usualNumber signal < 2 ^ 31 := by
  cases signal <;> exact ⟨by decide, by decide⟩

def usualPlatform : Platform := ⟨false, SourceLocation.isalnum, 2 ^ 64 - 1⟩

theorem usualPlatform_size : 1024 ≤ usualPlatform.sizeMax := by decide

/-- A function with the place in its source. -/
def usualSymbol : Symbolized where
  text := ⟨bytes "f (a.c:1)", by decide +kernel⟩
  fileLineOffset := 3
  fileLineLength := 5
  inBounds := by decide +kernel

/-- An environment in which every address is in one function. -/
def usualEnvironment (mode : ColorMode) : Environment where
  number := usualNumber
  time := 0
  pid := 1
  thread := 1
  lwp := 1
  threadName := none
  writerIsDefault := true
  stderrColorMode := mode
  stderrHyperlinks := true
  symbolizeHyperlinks := true
  platform := usualPlatform
  basePath := ⟨[], List.not_mem_nil⟩
  hostname := ⟨[], List.not_mem_nil⟩
  cwd := ⟨[], List.not_mem_nil⟩
  symbolize := fun _ => some usualSymbol

theorem usualEnvironment_printable (mode : ColorMode) : (usualEnvironment mode).Printable where
  threadName := nofun
  hostname := List.not_mem_nil
  symbols _ s hs := by
    cases hs
    decide +kernel

theorem handleSignal_shows_text_usual : ∃ writes plain,
    handleSignal (usualEnvironment .ansi) 11 ⟨1, 8, 0⟩ 16 [16, 17] = some writes ∧
      handleSignal (usualEnvironment .ansi).uncolored 11 ⟨1, 8, 0⟩ 16 [16, 17] = some plain ∧
      bytes "@               0x11 a.c:1 f\n" <:+ output plain ∧ contentOf writes = output plain ∧
      ∃ cells, Displays writes cells ∧ cells.map Prod.fst = output plain := by
  obtain ⟨writes, plain, hwrites, hplain, htext, hcontent, hcells⟩ := handleSignal_shows_text
    (usualEnvironment .ansi) usualPlatform_size (show 0 ≤ (11 : ℤ) ∧ (11 : ℤ) < 2 ^ 31 by decide)
    ⟨1, 8, 0⟩ 16 [16, 17]
  have hframe : bytes "@               0x11 a.c:1 f\n" <:+
      reportText (usualEnvironment .ansi) 11 ⟨1, 8, 0⟩ 16 [16, 17] := by decide +kernel
  exact ⟨writes, plain, hwrites, hplain, htext ▸ hframe, hcontent,
    hcells (usualEnvironment_printable .ansi)⟩

/-! ### The reports of a run -/

/-- What a signal on a thread is reported with. -/
structure Occurrence where
  env : Environment
  siginfo : Siginfo
  pc : UInt64
  stack : List UInt64
  number : ∀ signal, 0 ≤ env.number signal ∧ env.number signal < 2 ^ 31
  size : 1024 ≤ env.platform.sizeMax

/-- What `HandleSignal` writes. -/
def Occurrence.report (o : Occurrence) (signal : FailureSignal) : List Write :=
  (handleSignal o.env (o.env.number signal) o.siginfo o.pc o.stack).getD []

/-- The text of the report. -/
def Occurrence.text (o : Occurrence) (signal : FailureSignal) : List Byte :=
  reportText o.env (o.env.number signal) o.siginfo o.pc o.stack

/-- How the report is shown. -/
def Occurrence.cells (o : Occurrence) (signal : FailureSignal) : List (Byte × Pen) :=
  (reportFields o.env (o.env.number signal) o.siginfo o.pc o.stack).flatMap (Field.cells o.env.mode)

theorem Occurrence.displays (o : Occurrence) (h : o.env.Printable) (signal : FailureSignal) :
    Displays (o.report signal) (o.cells signal) := by
  rw [Occurrence.report, handleSignal_eq o.env o.size (o.number signal)]
  exact displays_fieldWrites o.env.mode (reportFields_printable h o.size _ _ _ _)

theorem displays_text {T : Type*} (occurrence : T → FailureSignal → Occurrence)
    (h : ∀ t signal, (occurrence t signal).env.Printable) (finished : List (T × FailureSignal)) :
    Displays (text (fun t signal => (occurrence t signal).report signal) finished)
      (finished.flatMap fun d => (occurrence d.1 d.2).cells d.2) := by
  induction finished with
  | nil => exact displays_nil
  | cons d finished ih => exact ((occurrence d.1 d.2).displays (h d.1 d.2) d.2).append ih

/-- The same report for every thread and signal. -/
def usualOccurrence : Occurrence where
  env := usualEnvironment .ansi
  siginfo := ⟨1, 8, 0⟩
  pc := 16
  stack := [17]
  number := usualNumber_bounds
  size := usualPlatform_size

/-- One thread gets a signal, and gives the dump away when it has written it. -/
def onceRun (size : ℕ) : List (Interrupts.Event Bool FailureSignal) :=
  [Interrupts.Event.fault true .SIGSEGV, .run true false, .run true false, .run true false] ++
    (List.replicate size (Interrupts.Event.run true false) ++
      List.replicate 5 (Interrupts.Event.run true false))

theorem run_once (dump : Bool → FailureSignal → List Write) : ∃ w, Transition.run
      (Interrupts.step (FailureSignalHandler dump fun _ _ => true) fun _ => false)
      (initial Bool Write) (onceRun (dump true .SIGSEGV).length) = some w ∧
      w.shared = ⟨false, dump true .SIGSEGV⟩ ∧ (.SIGSEGV, .unmark) ∈ w.frames true := by
  obtain ⟨w, hw, hthread, halive, hshared⟩ : ∃ w, Transition.run
      (Interrupts.step (FailureSignalHandler dump fun _ _ => true) fun _ => false)
      (initial Bool Write) [.fault true .SIGSEGV, .run true false, .run true false,
        .run true false] = some w ∧
      w.threads true = ⟨true, [(.SIGSEGV, .handle (dump true .SIGSEGV))], none⟩ ∧ w.alive = true ∧
      w.shared = ⟨true, []⟩ := ⟨_, rfl, rfl, rfl, rfl⟩
  obtain ⟨shared, isDefault, pending, threads, alive⟩ := w
  cases halive
  cases hshared
  rw [onceRun, Transition.run_append, hw, Option.bind_some, Transition.run_append,
    run_handle true .SIGSEGV [] _ rfl hthread, Option.bind_some]
  exact ⟨_, rfl, rfl, List.mem_singleton_self _⟩

end Signals

end NgLog
