import NgLog.Signals.FailureHandler
import NgLog.Signals.Formatter
import NgLog.SourceLocation.SymbolizedFrame
import NgLog.SourceLocation.FileUri
import NgLog.Terminal.StyledOutput

/-!
# The failure report

`HandleSignal` writes the time, the signal and the stack, each field in its color. The buffers that
the fields are formatted in are big enough: nothing but the name of a source file is ever cut.

## Main definitions

* `Environment`, `Siginfo` — what the report is about
* `dumpTimeInfo`, `dumpSignalInfo`, `dumpStackFrameInfoImpl`, `handleSignal` — the functions
* `Field`, `reportFields` — the fields of the report

## Main results

* `handleSignal_eq` — the report is written field by field
* `frameUri_safe` — the hyperlink of a frame is built within its buffer
-/

namespace NgLog

namespace Signals

open Message (ColorMode)
open Terminal (escape)
open Numeral (numeral)
open Styled
open MinimalFormatter
open SourceLocation

/-! ### What the report is about -/

/-- The roles of the fields. -/
inductive Role
  | kStackAddress
  | kStackFile
  | kStackFunction
  | kStackUnresolved
  | kMetaIdentifier
  | kMetaThreadName
  | kShellCommand
  | kSignalName

/-- A color and a style, on the background of the terminal. -/
def onDefault (color : Color) (style : TextStyle) : ColorSpec :=
  ⟨.kNamed color, style, .kNamed .kDefault⟩

/-- `DefaultTheme` -/
def defaultTheme : Role → ColorSpec
  | .kStackAddress => onDefault .kGray .kNone
  | .kStackFile => onDefault .kCyan .kNone
  | .kStackFunction => onDefault .kGreen .kNone
  | .kStackUnresolved => onDefault .kGray .kItalic
  | .kMetaIdentifier => onDefault .kMagenta .kNone
  | .kMetaThreadName => onDefault .kCyan .kNone
  | .kShellCommand => onDefault .kBlue .kNone
  | .kSignalName => onDefault .kRed .kBold

/-- What `Symbolize` gives for an address: a string, and where in it a file and a line are. -/
structure Symbolized where
  text : CString
  fileLineOffset : ℕ
  fileLineLength : ℕ
  inBounds : fileLineOffset + fileLineLength ≤ text.length

/-- What the system and `InstallFailureSignalHandler` provide. -/
structure Environment where
  number : FailureSignal → ℤ
  time : ℤ
  pid : ℤ
  thread : UInt64
  lwp : ℤ
  threadName : Option CString
  writerIsDefault : Bool
  stderrColorMode : ColorMode
  stderrHyperlinks : Bool
  symbolizeHyperlinks : Bool
  platform : Platform
  basePath : CString
  hostname : CString
  cwd : CString
  symbolize : UInt64 → Option Symbolized

/-- The members of `siginfo_t` that the report reads. -/
structure Siginfo where
  code : ℤ
  addr : UInt64
  pid : ℤ

/-- What a stack frame address points at. -/
inductive FrameAddress
  | kReturnAddress
  | kInstruction

/-- The color mode of the writer. -/
def Environment.mode (env : Environment) : ColorMode :=
  if env.writerIsDefault then env.stderrColorMode else .none

/-- `static_cast<std::uint64_t>` -/
def toUint64 (n : ℤ) : UInt64 := UInt64.ofNat (n % 2 ^ 64).toNat

def FailureSignal.name : FailureSignal → List Byte
  | .SIGSEGV => bytes "SIGSEGV"
  | .SIGILL => bytes "SIGILL"
  | .SIGFPE => bytes "SIGFPE"
  | .SIGABRT => bytes "SIGABRT"
  | .SIGBUS => bytes "SIGBUS"
  | .SIGTERM => bytes "SIGTERM"

/-- The name of a signal: the last entry of `kFailureSignals` with its number. -/
def signalName (number : FailureSignal → ℤ) (signalNumber : ℤ) : Option (List Byte) :=
  kFailureSignals.foldl
    (fun name signal => if signalNumber = number signal then some signal.name else name) none

/-- `IsFaultSignal` -/
def isFaultSignal (number : FailureSignal → ℤ) (signalNumber : ℤ) : Bool :=
  [FailureSignal.SIGSEGV, .SIGBUS, .SIGILL, .SIGFPE].any fun signal => signalNumber = number signal

/-- `GetThreadName` -/
def getThreadName (env : Environment) : Option CString :=
  env.threadName.filter fun name => name.text ≠ []

/-- A formatter for an array of some size. -/
def formatter (size : ℕ) : MinimalFormatter := ⟨[], List.replicate size 0⟩

def kMaxStackDumpFrames : ℕ := 32
def kStackDumpCutOffMarker : List Byte := bytes "    (More stack frames follow...)\n"

/-! ### The functions -/

/-- A part of a function that writes: what it does with the formatter of the plain text, and its
writes. -/
abbrev Run : Type := MinimalFormatter → Option (MinimalFormatter × List Write)

/-- One part after the other. -/
def runAll : List Run → Run
  | [], plain => some (plain, [])
  | run :: runs, plain => (run plain).bind fun first =>
    (runAll runs first.1).map fun rest => (rest.1, first.2 ++ rest.2)

/-- `plain.Reset()`, `plain.AppendString(text)`, and a call of the writer. -/
def plainRun (text : List Byte) : Run := fun plain =>
  let plain := appendString text plain.reset
  some (plain, [.content plain.written])

/-- `WriteStyledField` for a text. -/
def textRun (env : Environment) (role : Role) (text : List Byte) : Run := fun plain =>
  some (plain, writeStyledField (defaultTheme role) none env.mode text)

/-- `WriteStyledField` for a number in decimal, formatted behind a text in an array of some size. -/
def decimalRun (env : Environment) (role : Role) (size : ℕ) (before : List Byte) (number : ℤ) :
    Run :=
  fun plain => do
    let formatted ← appendUint64 (toUint64 number) kDecimalRadix
      (appendString before (formatter size))
    return (plain, writeStyledField (defaultTheme role) none env.mode formatted.written)

/-- `WriteStyledField` for a hexadecimal number with its prefix, formatted in an array of 24
bytes. -/
def hexRun (env : Environment) (role : Role) (number : UInt64) : Run := fun plain => do
  let formatted ← appendUint64 number kHexadecimalRadix (appendString (bytes "0x") (formatter 24))
  return (plain, writeStyledField (defaultTheme role) none env.mode formatted.written)

/-- `DumpTimeInfo` -/
def dumpTimeInfo (env : Environment) : Option (List Write) :=
  (runAll [plainRun (bytes "*** Aborted at "), decimalRun env .kShellCommand 24 [] env.time,
    plainRun (bytes " (unix time) try \""),
    decimalRun env .kShellCommand 64 (bytes "date -d @") env.time,
    plainRun (bytes "\" if you are using GNU date ***\n")] (formatter 64)).map Prod.snd

/-- The name of the signal, or its number. -/
def signalNameRun (env : Environment) (signalNumber : ℤ) : Run :=
  match signalName env.number signalNumber with
  | some name => textRun env .kSignalName name
  | none => decimalRun env .kSignalName 24 (bytes "Signal ") signalNumber

/-- `DumpSignalInfo` -/
def dumpSignalInfo (env : Environment) (signalNumber : ℤ) (siginfo : Siginfo) :
    Option (List Write) :=
  let sentByProcess : Bool := siginfo.code ≤ 0
  let isFault := !sentByProcess && isFaultSignal env.number signalNumber
  (runAll ([plainRun (bytes "*** "), signalNameRun env signalNumber] ++
    (if isFault then
      [plainRun (bytes " (@"), hexRun env .kStackAddress siginfo.addr, plainRun (bytes ")")]
    else []) ++
    [plainRun (bytes " received by PID "), decimalRun env .kMetaIdentifier 24 [] env.pid,
      plainRun (bytes " (TID "), hexRun env .kMetaIdentifier env.thread,
      plainRun (bytes " LWP "), decimalRun env .kMetaIdentifier 24 [] env.lwp] ++
    (match getThreadName env with
      | some name =>
        [plainRun (bytes " thread \""), textRun env .kMetaThreadName name.text,
          plainRun (bytes "\"")]
      | none => []) ++
    [plainRun (bytes ") ")] ++
    (if sentByProcess then
      [plainRun (bytes "from PID "), decimalRun env .kMetaIdentifier 24 [] siginfo.pid,
        plainRun (bytes "; ")] else []) ++
    [plainRun (bytes "stack trace: ***\n")]) (formatter 128)).map Prod.snd

/-- What stands for a symbol that has not been found. -/
def kUnknown : List Byte := bytes "(unknown)"

/-- `mode == ColorMode::kAnsi` -/
def isAnsi : ColorMode → Bool
  | .ansi => true
  | .none | .legacyConsole => false

/-- The hyperlink of a frame: `BuildFileUri` for an array of 1024 bytes. -/
def frameUri (env : Environment) (span : List Byte) : Option (Option (List Byte)) :=
  if isAnsi env.mode ∧ env.symbolizeHyperlinks ∧ env.stderrHyperlinks ∧ span.length > 0 then do
    let (built, uri) ← buildFileUri env.platform span (some env.basePath) (some env.hostname)
      (List.replicate 1024 0)
    pure (if built then some (uri.takeWhile (· ≠ 0)) else none)
  else some none

/-- The file and the line as they are displayed: the formatter of an array of 160 bytes. -/
def frameDisplay (env : Environment) (span : List Byte) : Option MinimalFormatter :=
  match splitFileLineSpan span with
  | some found => do
    let shortPath ← formatDisplayPath (found.path span) (some env.cwd) kDisplayPathPrefixComponents
      kDisplayPathSuffixComponents (List.replicate 128 0)
    let display := appendString (shortPath.takeWhile (· ≠ 0)) (formatter 160)
    let display := appendString (bytes ":") display
    pure (appendString (found.lineText span) display)
  | none => some (appendString span (formatter 160))

/-- `function_len`, without the parenthesis in front of the file. -/
def functionLength (symbol : List Byte) (fileLineOffset : ℕ) : ℕ :=
  if 2 ≤ fileLineOffset ∧ symbol[fileLineOffset - 2]? = some 0x20 ∧
      symbol[fileLineOffset - 1]? = some 0x28 then fileLineOffset - 2
  else fileLineOffset

/-- The part of `DumpStackFrameInfoImpl` that writes the symbol, with its file and line if there are
any. -/
def dumpSymbol (env : Environment) (symbolized : Option Symbolized) (uri : Option (List Byte)) :
    Option (List Write) :=
  let symbol := (symbolized.map fun s => s.text.text).getD kUnknown
  let offset := (symbolized.map Symbolized.fileLineOffset).getD 0
  let length := (symbolized.map Symbolized.fileLineLength).getD 0
  if length > 0 then
    (frameDisplay env ((symbol.drop offset).take length)).map fun display =>
      let fileField := writeStyledField (defaultTheme .kStackFile) uri env.mode display.written
      if offset > 0 then
        fileField ++ [Write.content [0x20]] ++
          writeStyledField (defaultTheme .kStackFunction) none env.mode
            (symbol.take (functionLength symbol offset))
      else
        let tail := symbol.drop (offset + length)
        if tail.head? = some 0x20 then
          fileField ++ [Write.content [0x20]] ++
            writeStyledField (defaultTheme .kStackFunction) none env.mode (tail.drop 1)
        else fileField ++ writeStyledField (defaultTheme .kStackFunction) none env.mode tail
  else
    let role := if symbolized.isSome then Role.kStackFunction else .kStackUnresolved
    some (writeStyledField (defaultTheme role) none env.mode symbol)

/-- `DumpStackFrameInfoImpl` -/
def dumpStackFrameInfoImpl (env : Environment) (linePrefix : List Byte) (pc : UInt64)
    (kind : FrameAddress) : Option (List Write) := do
  let address :=
    match kind with
    | .kReturnAddress => if pc ≠ 0 then pc - 1 else pc
    | .kInstruction => pc
  let symbolized := env.symbolize address
  let symbol := (symbolized.map fun s => s.text.text).getD kUnknown
  let uri ← frameUri env ((symbol.drop ((symbolized.map Symbolized.fileLineOffset).getD 0)).take
    ((symbolized.map Symbolized.fileLineLength).getD 0))
  let plain := appendString (bytes "@ ") (appendString linePrefix (formatter 64))
  let addr ← appendHexWithPadding pc 18 (formatter 32)
  let addrField := writeStyledField (defaultTheme .kStackAddress) none env.mode addr.written
  let symbolField ← dumpSymbol env symbolized uri
  return Write.content plain.written :: addrField ++ [Write.content [0x20]] ++ symbolField ++
    [Write.content [0x0a]]

/-- The frames of the stack. The one of the program counter is of the faulting instruction. -/
def dumpFrames (env : Environment) (pc : UInt64) : List UInt64 → Option (List Write)
  | [] => some []
  | frame :: stack => do
    let kind := if frame = pc then FrameAddress.kInstruction else .kReturnAddress
    let first ← dumpStackFrameInfoImpl env (bytes "    ") frame kind
    let rest ← dumpFrames env pc stack
    pure (first ++ rest)

/-- What `HandleSignal` writes, with the frames that `GetStackTrace` gives, one more than are
printed. -/
def handleSignal (env : Environment) (signalNumber : ℤ) (siginfo : Siginfo) (pc : UInt64)
    (stack : List UInt64) : Option (List Write) := do
  let time ← dumpTimeInfo env
  let signal ← dumpSignalInfo env signalNumber siginfo
  let counter ← dumpStackFrameInfoImpl env (bytes "PC: ") pc .kInstruction
  let truncated := stack.length > kMaxStackDumpFrames
  let depth := if truncated then kMaxStackDumpFrames else stack.length
  let frames ← dumpFrames env pc (stack.take depth)
  return time ++ signal ++ counter ++ frames ++
    if truncated then [Write.content kStackDumpCutOffMarker] else []

/-! ### The fields of the report -/

/-- A field of the report: its text, and its role and hyperlink if it has a role. -/
structure Field where
  text : List Byte
  role : Option Role
  uri : Option (List Byte)

/-- Text without a role. -/
def Field.plain (text : List Byte) : Field := ⟨text, none, none⟩

/-- A field without a hyperlink. -/
def Field.styled (role : Role) (text : List Byte) : Field := ⟨text, some role, none⟩

/-- How a field is shown. -/
def Field.cells (mode : ColorMode) (field : Field) : List (Byte × Pen) :=
  field.text.map fun c =>
    (c, match field.role with
      | none => .plain
      | some role => styledPen (defaultTheme role) field.uri mode c)

/-- A decimal number. -/
def decimalText (number : ℤ) : List Byte := numeral 10 (toUint64 number).toNat

/-- `DumpTimeInfo` -/
def timeFields (env : Environment) : List Field :=
  [.plain (bytes "*** Aborted at "), .styled .kShellCommand (decimalText env.time),
    .plain (bytes " (unix time) try \""),
    .styled .kShellCommand (bytes "date -d @" ++ decimalText env.time),
    .plain (bytes "\" if you are using GNU date ***\n")]

/-- The name of a signal, or its number. -/
def signalText (number : FailureSignal → ℤ) (signalNumber : ℤ) : List Byte :=
  (signalName number signalNumber).getD (bytes "Signal " ++ decimalText signalNumber)

/-- A number with its prefix. -/
def hexText (number : UInt64) : List Byte := bytes "0x" ++ numeral 16 number.toNat

/-- `DumpSignalInfo` -/
def signalFields (env : Environment) (signalNumber : ℤ) (siginfo : Siginfo) : List Field :=
  [Field.plain (bytes "*** "), Field.styled .kSignalName (signalText env.number signalNumber)] ++
    (if !decide (siginfo.code ≤ 0) && isFaultSignal env.number signalNumber then
      [Field.plain (bytes " (@"), Field.styled .kStackAddress (hexText siginfo.addr),
        Field.plain (bytes ")")]
    else []) ++
    [Field.plain (bytes " received by PID "), Field.styled .kMetaIdentifier (decimalText env.pid),
      Field.plain (bytes " (TID "), Field.styled .kMetaIdentifier (hexText env.thread),
      Field.plain (bytes " LWP "), Field.styled .kMetaIdentifier (decimalText env.lwp)] ++
    (match getThreadName env with
      | some name =>
        [Field.plain (bytes " thread \""), Field.styled .kMetaThreadName name.text,
          Field.plain (bytes "\"")]
      | none => []) ++
    [Field.plain (bytes ") ")] ++
    (if decide (siginfo.code ≤ 0) then
      [Field.plain (bytes "from PID "), Field.styled .kMetaIdentifier (decimalText siginfo.pid),
        Field.plain (bytes "; ")]
      else []) ++
    [Field.plain (bytes "stack trace: ***\n")]

/-- The file and the line as they are displayed. -/
def displayedText (cwd : CString) (span : List Byte) : List Byte :=
  match splitFileLineSpan span with
  | some found =>
    (displayText (found.path span) 128
      (displayForm (found.path span) (some cwd) kDisplayPathPrefixComponents
      kDisplayPathSuffixComponents 128) ++ bytes ":" ++ found.lineText span).take 160
  | none => span.take 160

/-- The symbol of a frame. -/
def frameSymbol (symbolized : Option Symbolized) : List Byte :=
  (symbolized.map fun s => s.text.text).getD kUnknown

/-- The fields behind the address of a frame. -/
def symbolFields (env : Environment) (symbolized : Option Symbolized) (uri : Option (List Byte)) :
    List Field :=
  let symbol := frameSymbol symbolized
  match symbolized with
  | none => [.styled .kStackUnresolved symbol]
  | some s =>
    if s.fileLineLength > 0 then
      let file : Field :=
        ⟨displayedText env.cwd ((symbol.drop s.fileLineOffset).take s.fileLineLength),
        some .kStackFile, uri⟩
      if s.fileLineOffset > 0 then
        [file, .plain (bytes " "),
          .styled .kStackFunction (symbol.take (functionLength symbol s.fileLineOffset))]
      else
        let tail := symbol.drop (s.fileLineOffset + s.fileLineLength)
        if tail.head? = some 0x20 then
          [file, .plain (bytes " "), .styled .kStackFunction (tail.drop 1)]
        else [file, .styled .kStackFunction tail]
    else [.styled .kStackFunction symbol]

/-- An address with blanks in front of it. -/
def addressText (pc : UInt64) : List Byte :=
  List.replicate (18 - (hexText pc).length) 0x20 ++ hexText pc

/-- The address that is symbolized: a return address is the one behind the call. -/
def symbolizedAddress (pc : UInt64) : FrameAddress → UInt64
  | .kReturnAddress => if pc ≠ 0 then pc - 1 else pc
  | .kInstruction => pc

/-- The file and the line of a frame. -/
def frameSpan (symbolized : Option Symbolized) : List Byte :=
  ((frameSymbol symbolized).drop ((symbolized.map Symbolized.fileLineOffset).getD 0)).take
    ((symbolized.map Symbolized.fileLineLength).getD 0)

/-- `DumpStackFrameInfoImpl` -/
def frameFields (env : Environment) (linePrefix : List Byte) (pc : UInt64) (kind : FrameAddress) :
    List Field :=
  let symbolized := env.symbolize (symbolizedAddress pc kind)
  [.plain (linePrefix ++ bytes "@ "), .styled .kStackAddress (addressText pc),
    .plain (bytes " ")] ++
    symbolFields env symbolized ((frameUri env (frameSpan symbolized)).getD none) ++
      [.plain (bytes "\n")]

/-- What `HandleSignal` writes. -/
def reportFields (env : Environment) (signalNumber : ℤ) (siginfo : Siginfo) (pc : UInt64)
    (stack : List UInt64) : List Field :=
  timeFields env ++ signalFields env signalNumber siginfo ++
    frameFields env (bytes "PC: ") pc .kInstruction ++
    ((stack.take kMaxStackDumpFrames).flatMap fun frame =>
      frameFields env (bytes "    ") frame
        (if frame = pc then .kInstruction else .kReturnAddress)) ++
    if stack.length > kMaxStackDumpFrames then [.plain kStackDumpCutOffMarker] else []

/-- The writes of a field. -/
def Field.writes (mode : ColorMode) (field : Field) : List Write :=
  match field.role with
  | none => [.content field.text]
  | some role => writeStyledField (defaultTheme role) field.uri mode field.text

/-- The writes of some fields. -/
def fieldWrites (mode : ColorMode) (fields : List Field) : List Write :=
  fields.flatMap (Field.writes mode)

/-! ### The buffers are big enough -/

theorem length_contents_appendString (text : List Byte) (f : MinimalFormatter) :
    (appendString text f).contents.length = f.contents.length := by
  rw [appendString_eq]
  simp only [Buffer.contents, Buffer.advance, List.length_append, List.length_drop,
    List.length_take]
  omega

theorem length_contents_reset (f : MinimalFormatter) :
    f.reset.contents.length = f.contents.length := by
  rw [MinimalFormatter.reset, Buffer.contents, List.nil_append]

theorem length_contents_formatter (size : ℕ) : (formatter size).contents.length = size :=
  List.length_replicate

theorem written_formatter {text : List Byte} {size : ℕ} (h : text.length ≤ size) :
    (appendString text (formatter size)).written = text := by
  rw [appendString_eq, formatter, List.length_replicate, List.take_of_length_le h]
  rfl

theorem written_reset {text : List Byte} {f : MinimalFormatter}
    (h : text.length ≤ f.contents.length) :
    (appendString text f.reset).written = text := by
  rw [appendString_eq, MinimalFormatter.reset, List.take_of_length_le h]
  rfl

theorem length_decimalText_le (number : ℤ) : (decimalText number).length ≤ 20 :=
  Numeral.length_numeral_le (by decide) (by decide)
    (Nat.lt_of_lt_of_le (toUint64 number).toNat_lt (by decide))

theorem length_hexText_le (number : UInt64) : (hexText number).length ≤ 18 := by
  have hlength : (numeral 16 number.toNat).length ≤ 16 :=
    Numeral.length_numeral_le (by decide) (by decide)
      (Nat.lt_of_lt_of_le number.toNat_lt (by decide))
  have hfront : (bytes "0x").length = 2 := by decide
  rw [hexText, List.length_append, hfront]
  omega

/-- A part writes some fields, whatever the formatter of the plain text holds. -/
def Appends (env : Environment) (size : ℕ) (run : Run) (fields : List Field) : Prop :=
  ∀ plain : MinimalFormatter, plain.contents.length = size →
    ∃ plain', plain'.contents.length = size ∧ run plain = some (plain', fieldWrites env.mode fields)

variable {env : Environment} {size : ℕ}

theorem appends_nil : Appends env size (runAll []) [] := fun plain hplain => ⟨plain, hplain, rfl⟩

theorem Appends.cons {run : Run} {runs : List Run} {field : Field} {fields : List Field}
    (hrun : Appends env size run [field]) (hruns : Appends env size (runAll runs) fields) :
    Appends env size (runAll (run :: runs)) (field :: fields) := by
  intro plain hplain
  obtain ⟨plain₁, hplain₁, hfirst⟩ := hrun plain hplain
  obtain ⟨plain₂, hplain₂, hrest⟩ := hruns plain₁ hplain₁
  refine ⟨plain₂, hplain₂, ?_⟩
  rw [runAll, hfirst, Option.bind_some, hrest, Option.map_some]
  simp [fieldWrites]

theorem runAll_append (runs runs' : List Run) (plain : MinimalFormatter) :
    runAll (runs ++ runs') plain = (runAll runs plain).bind fun first =>
      (runAll runs' first.1).map fun rest => (rest.1, first.2 ++ rest.2) := by
  induction runs generalizing plain with
  | nil =>
    show runAll runs' plain = (runAll runs' plain).map fun rest => (rest.1, [] ++ rest.2)
    exact Option.map_id'.symm
  | cons run runs ih =>
    rw [List.cons_append, runAll, runAll]
    cases run plain with
    | none => rfl
    | some first =>
      rw [Option.bind_some, Option.bind_some, ih]
      cases runAll runs first.1 with
      | none => rfl
      | some second =>
        rw [Option.bind_some, Option.map_some, Option.bind_some]
        cases runAll runs' second.1 with
        | none => rfl
        | some third => simp

theorem Appends.append {runs runs' : List Run} {fields fields' : List Field}
    (h : Appends env size (runAll runs) fields) (h' : Appends env size (runAll runs') fields') :
    Appends env size (runAll (runs ++ runs')) (fields ++ fields') := by
  intro plain hplain
  obtain ⟨plain₁, hplain₁, hfirst⟩ := h plain hplain
  obtain ⟨plain₂, hplain₂, hrest⟩ := h' plain₁ hplain₁
  refine ⟨plain₂, hplain₂, ?_⟩
  rw [runAll_append, hfirst, Option.bind_some, hrest, Option.map_some]
  simp [fieldWrites]

/-- A part that is left out on a condition, with its fields. -/
theorem Appends.ite {runs : List Run} {fields : List Field}
    (h : Appends env size (runAll runs) fields) (condition : Bool) :
    Appends env size (runAll (if condition then runs else []))
      (if condition then fields else []) := by
  cases condition with
  | false => exact appends_nil
  | true => exact h

theorem appends_plainRun {text : List Byte} (h : text.length ≤ size) :
    Appends env size (plainRun text) [.plain text] := by
  intro plain hplain
  refine ⟨appendString text plain.reset, ?_, ?_⟩
  · rw [length_contents_appendString, length_contents_reset, hplain]
  · rw [plainRun, written_reset (by rwa [hplain])]
    rfl

theorem appends_textRun (role : Role) (text : List Byte) :
    Appends env size (textRun env role text) [.styled role text] := fun plain hplain =>
  ⟨plain, hplain, by simp [textRun, fieldWrites, Field.writes, Field.styled]⟩

theorem appends_decimalRun_of_le (role : Role) {room : ℕ} {before : List Byte} {number : ℤ}
    (h : before.length + (decimalText number).length ≤ room) :
    Appends env size (decimalRun env role room before number)
      [.styled role (before ++ decimalText number)] := by
  intro plain hplain
  refine ⟨plain, hplain, ?_⟩
  rw [decimalRun, kDecimalRadix, appendUint64_eq (by decide) (by decide), appendString_append,
    Option.bind_eq_bind, Option.bind_some, ← decimalText, written_formatter]
  · simp [fieldWrites, Field.writes, Field.styled]
  · rwa [List.length_append]

theorem appends_decimalRun (role : Role) {room : ℕ} {before : List Byte}
    (h : before.length + 20 ≤ room) (number : ℤ) :
    Appends env size (decimalRun env role room before number)
      [.styled role (before ++ decimalText number)] := by
  have hlength := length_decimalText_le number
  exact appends_decimalRun_of_le role (by omega)

theorem appends_hexRun (role : Role) (number : UInt64) :
    Appends env size (hexRun env role number) [.styled role (hexText number)] := by
  intro plain hplain
  have hlength := length_hexText_le number
  refine ⟨plain, hplain, ?_⟩
  rw [hexRun, kHexadecimalRadix, appendUint64_eq (by decide) (by decide), appendString_append,
    Option.bind_eq_bind, Option.bind_some, ← hexText,
    written_formatter (Nat.le_trans hlength (by decide))]
  simp [fieldWrites, Field.writes, Field.styled]

theorem Appends.result {run : Run} {fields : List Field} (h : Appends env size run fields) :
    (run (formatter size)).map Prod.snd = some (fieldWrites env.mode fields) := by
  obtain ⟨plain, -, hrun⟩ := h (formatter size) (length_contents_formatter size)
  rw [hrun]
  rfl

theorem dumpTimeInfo_eq (env : Environment) :
    dumpTimeInfo env = some (fieldWrites env.mode (timeFields env)) := by
  refine Appends.result ?_
  refine .cons (appends_plainRun (by decide +kernel)) ?_
  refine .cons (appends_decimalRun _ (by decide) _) ?_
  refine .cons (appends_plainRun (by decide +kernel)) ?_
  refine .cons (appends_decimalRun _ (by decide +kernel) _) ?_
  exact .cons (appends_plainRun (by decide +kernel)) appends_nil

/-- The number of a signal without a name fits behind the word. -/
theorem appends_signalNameRun {signalNumber : ℤ} (h : 0 ≤ signalNumber ∧ signalNumber < 2 ^ 31) :
    Appends env size (signalNameRun env signalNumber)
      [.styled .kSignalName (signalText env.number signalNumber)] := by
  rw [signalNameRun, signalText]
  cases signalName env.number signalNumber with
  | some name => exact appends_textRun _ name
  | none =>
    have hnumber : (toUint64 signalNumber).toNat < 10 ^ 10 := by
      have hmod : (signalNumber % 2 ^ 64).toNat < 2 ^ 31 := by omega
      rw [toUint64, UInt64.toNat_ofNat_of_lt' (Nat.lt_trans hmod (by decide))]
      exact Nat.lt_trans hmod (by decide)
    have hlength : (decimalText signalNumber).length ≤ 10 :=
      Numeral.length_numeral_le (by decide) (by decide) hnumber
    have hsignal : (bytes "Signal ").length = 7 := by decide
    exact appends_decimalRun_of_le _ (by omega)

theorem dumpSignalInfo_eq (env : Environment) {signalNumber : ℤ}
    (h : 0 ≤ signalNumber ∧ signalNumber < 2 ^ 31) (siginfo : Siginfo) :
    dumpSignalInfo env signalNumber siginfo =
      some (fieldWrites env.mode (signalFields env signalNumber siginfo)) := by
  refine Appends.result ?_
  refine .append (.append (.append (.append (.append (.append ?_ (.ite ?_ _)) ?_) ?_) ?_)
    (.ite ?_ _)) ?_
  · exact .cons (appends_plainRun (by decide +kernel)) (.cons (appends_signalNameRun h) appends_nil)
  · exact .cons (appends_plainRun (by decide +kernel)) (.cons (appends_hexRun _ _)
      (.cons (appends_plainRun (by decide +kernel)) appends_nil))
  · refine .cons (appends_plainRun (by decide +kernel))
      (.cons (appends_decimalRun _ (by decide) _) ?_)
    refine .cons (appends_plainRun (by decide +kernel)) (.cons (appends_hexRun _ _) ?_)
    exact .cons (appends_plainRun (by decide +kernel))
      (.cons (appends_decimalRun _ (by decide) _) appends_nil)
  · cases getThreadName env with
    | none => exact appends_nil
    | some name =>
      exact .cons (appends_plainRun (by decide +kernel)) (.cons (appends_textRun _ _)
        (.cons (appends_plainRun (by decide +kernel)) appends_nil))
  · exact .cons (appends_plainRun (by decide +kernel)) appends_nil
  · exact .cons (appends_plainRun (by decide +kernel)) (.cons (appends_decimalRun _ (by decide) _)
      (.cons (appends_plainRun (by decide +kernel)) appends_nil))
  · exact .cons (appends_plainRun (by decide +kernel)) appends_nil

/-! ### The frames of the stack -/

/-- What is displayed of a path has the bytes of the path and of the ellipses. -/
theorem notMem_displayText {c : Byte} {path : List Byte} (hpath : c ∉ path)
    (hellipsis : c ∉ kMiddleEllipsis) (hleading : c ∉ kLeadingEllipsis) (outSize : ℕ)
    (form : DisplayForm) :
    c ∉ displayText path outSize form := by
  have htake : ∀ count start, c ∉ (path.drop start).take count := fun count start hmem =>
    hpath (List.mem_of_mem_drop (List.mem_of_mem_take hmem))
  cases form with
  | whole start => exact htake _ start
  | tail start =>
    rw [displayText]
    split
    · rw [List.mem_append, not_or]
      exact ⟨hleading, htake _ start⟩
    · exact htake _ start
  | middle prefixEnd suffixStart =>
    rw [displayText, List.mem_append, List.mem_append, not_or, not_or]
    exact ⟨⟨fun hmem => hpath (List.mem_of_mem_take hmem), hellipsis⟩,
      fun hmem => hpath (List.mem_of_mem_drop hmem)⟩

theorem notMem_path {c : Byte} {span : List Byte} (h : c ∉ span) (found : FileLine) :
    c ∉ found.path span :=
  fun hmem => h (List.mem_of_mem_take hmem)

theorem notMem_lineText {c : Byte} {span : List Byte} (h : c ∉ span) (found : FileLine) :
    c ∉ found.lineText span :=
  fun hmem => h (List.mem_of_mem_drop (List.mem_of_mem_take hmem))

theorem frameDisplay_eq (env : Environment) {span : List Byte} (hspan : 0 ∉ span) :
    ∃ display, frameDisplay env span = some display ∧
    display.written = displayedText env.cwd span := by
  rw [frameDisplay, displayedText]
  cases splitFileLineSpan span with
  | none =>
    refine ⟨_, rfl, ?_⟩
    rw [appendString_eq, formatter, List.length_replicate]
    rfl
  | some found =>
    have hnul := notMem_displayText (notMem_path hspan found) (by decide +kernel)
      (by decide +kernel) 128
      (displayForm (found.path span) (some env.cwd) kDisplayPathPrefixComponents
        kDisplayPathSuffixComponents 128)
    have hpath : formatDisplayPath (found.path span) (some env.cwd) kDisplayPathPrefixComponents
        kDisplayPathSuffixComponents (List.replicate 128 0) = some (_ ++ 0 :: _) :=
      formatDisplayPath_eq (found.path span) (some env.cwd) kDisplayPathPrefixComponents
        kDisplayPathSuffixComponents (by rw [List.length_replicate]; decide) rfl
    rw [List.length_replicate] at hpath
    dsimp only
    rw [hpath, Option.bind_eq_bind, Option.bind_some]
    refine ⟨_, rfl, ?_⟩
    rw [takeWhile_ne_append hnul, appendString_append, appendString_append, ← List.append_assoc,
      appendString_eq, formatter, List.length_replicate]
    rfl

theorem notMem_server {p : Platform} {path server : List Byte}
    (h : networkServer p path = some server) :
    escape ∉ server := by
  obtain ⟨⟨server', rest⟩, hsplit, hserver⟩ := Option.bind_eq_some_iff.mp h
  obtain rfl : server' = some server := hserver
  have hcharacters : ∀ c ∈ server, isServerNameCharacter c = true := by
    cases splitWindowsNetworkPath_eq_some_iff.mp hsplit with
    | server _ _ _ hserver => exact hserver.characters
    | deviceServer _ _ _ _ _ _ hserver => exact hserver.characters
  intro hmem
  exact absurd (hcharacters escape hmem) (by decide)

theorem notMem_authority {p : Platform} {path : List Byte} {host : Option CString}
    (h : escape ∉ textOf host) : escape ∉ authority p path host := by
  rw [authority]
  cases hserver : networkServer p path with
  | some server => exact notMem_server hserver
  | none =>
    rw [Option.getD_none]
    split
    · decide +kernel
    · exact h

/-- The array of the hyperlink is read and written within its bounds. Whatever the path, no byte of
the hyperlink starts a control sequence, if none of the host does. -/
theorem buildFileUri_safe {p : Platform} {out : List Byte} (hsize : out.length ≤ p.sizeMax)
    (path : List Byte) (basePath host : Option CString) :
    ∃ built uri, buildFileUri p path basePath host out = some (built, uri) ∧
      (built = true → escape ∉ textOf host → escape ∉ uri.takeWhile (· ≠ 0)) := by
  have hparts := findParts_spec p path basePath host
  by_cases habsolute : IsAbsolute p path ∨ isAbsolutePath p (textOf basePath) = true
  · rw [if_pos habsolute] at hparts
    obtain ⟨parts, first, hparts, hfirst, hauthority, -⟩ := hparts
    rw [buildFileUri_parts hparts hfirst hsize]
    by_cases hfits : parts.uri.length + 1 ≤ out.length
    · rw [if_pos hfits]
      refine ⟨true, _, rfl, fun _ hhost hmem => ?_⟩
      have huri : escape ∉ parts.uri := by
        rw [Parts.uri, hauthority, List.mem_append, List.mem_append, not_or, not_or]
        exact ⟨⟨by decide +kernel, notMem_authority hhost⟩,
          (PercentEncoding.escaped_encode _).notMem (by decide) (by decide) (by decide +kernel)⟩
      rw [List.append_assoc] at hmem
      exact huri (mem_of_mem_takeWhile_ne hmem)
    · rw [if_neg hfits]
      exact ⟨false, _, rfl, fun h => absurd h Bool.false_ne_true⟩
  · rw [if_neg habsolute] at hparts
    rw [buildFileUri, hparts]
    exact ⟨false, _, rfl, fun h => absurd h Bool.false_ne_true⟩

theorem frameUri_safe (h : 1024 ≤ env.platform.sizeMax) (span : List Byte) :
    ∃ uri, frameUri env span = some uri ∧ (escape ∉ env.hostname.text → ∀ u ∈ uri, escape ∉ u) := by
  rw [frameUri]
  split
  · have hroom : (List.replicate 1024 (0 : Byte)).length ≤ env.platform.sizeMax := by
      rwa [List.length_replicate]
    obtain ⟨built, uri, hbuilt, hsafe⟩ := buildFileUri_safe hroom span (some env.basePath)
      (some env.hostname)
    rw [hbuilt, Option.bind_eq_bind, Option.bind_some]
    refine ⟨_, rfl, fun hhost u hu => ?_⟩
    split at hu
    · rename_i hpos
      cases hu
      exact hsafe hpos hhost
    · cases hu
  · exact ⟨none, rfl, fun _ _ => nofun⟩

variable (env)

theorem fieldWrites_append (mode : ColorMode) (fields fields' : List Field) :
    fieldWrites mode (fields ++ fields') = fieldWrites mode fields ++ fieldWrites mode fields' :=
  List.flatMap_append

theorem fieldWrites_cons (mode : ColorMode) (field : Field) (fields : List Field) :
    fieldWrites mode (field :: fields) = field.writes mode ++ fieldWrites mode fields :=
  List.flatMap_cons

theorem fieldWrites_nil (mode : ColorMode) : fieldWrites mode [] = [] := rfl

theorem Field.writes_plain (mode : ColorMode) (text : List Byte) :
    (Field.plain text).writes mode = [.content text] := rfl

theorem Field.writes_styled (mode : ColorMode) (role : Role) (text : List Byte) :
    (Field.styled role text).writes mode =
      writeStyledField (defaultTheme role) none mode text := rfl

theorem blank : bytes " " = [0x20] := by decide

theorem lineEnd : bytes "\n" = [0x0a] := by decide

theorem frameSymbol_some (s : Symbolized) : frameSymbol (some s) = s.text.text := rfl

theorem notMem_span (symbolized : Option Symbolized) : 0 ∉ frameSpan symbolized := by
  intro hmem
  have hsymbol : 0 ∈ frameSymbol symbolized := List.mem_of_mem_drop (List.mem_of_mem_take hmem)
  cases symbolized with
  | none => exact absurd hsymbol (by decide +kernel)
  | some s => exact s.text.noNul hsymbol

/-- The address is padded to the width of a pointer. -/
theorem appendHexWithPadding_address (pc : UInt64) :
    ∃ addr, appendHexWithPadding pc 18 (formatter 32) = some addr ∧
    addr.written = addressText pc := by
  have hlength := length_hexText_le pc
  have htake : (bytes "0x" ++ numeral 16 pc.toNat).take (formatter 32).rest.length =
      hexText pc := by
    refine List.take_of_length_le (Nat.le_trans hlength ?_)
    rw [formatter, List.length_replicate]
    decide
  have haddr := appendHexWithPadding_eq pc 18 (formatter 32)
  simp only [htake] at haddr
  refine ⟨_, haddr, ?_⟩
  rfl

theorem dumpSymbol_eq (symbolized : Option Symbolized) (uri : Option (List Byte)) :
    dumpSymbol env symbolized uri = some
      (fieldWrites env.mode (symbolFields env symbolized uri)) := by
  obtain ⟨display, hdisplay, hdisplayed⟩ := frameDisplay_eq env (notMem_span symbolized)
  cases symbolized with
  | none => simp [dumpSymbol, symbolFields, fieldWrites, Field.writes, Field.styled, frameSymbol]
  | some s =>
    rw [dumpSymbol, symbolFields]
    dsimp only [Option.map_some, Option.getD_some, frameSymbol_some]
    by_cases hlength : s.fileLineLength > 0
    · rw [if_pos hlength, if_pos hlength]
      change (frameDisplay env (frameSpan (some s))).map _ = _
      rw [hdisplay, Option.map_some, hdisplayed]
      by_cases hoffset : s.fileLineOffset > 0
      · rw [if_pos hoffset, if_pos hoffset, fieldWrites_cons, fieldWrites_cons, fieldWrites_cons,
          fieldWrites_nil, Field.writes_plain, Field.writes_styled, blank, List.append_nil,
          List.append_assoc]
        rfl
      · rw [if_neg hoffset, if_neg hoffset]
        by_cases htail : (s.text.text.drop (s.fileLineOffset + s.fileLineLength)).head? = some 0x20
        · rw [if_pos htail, if_pos htail, fieldWrites_cons, fieldWrites_cons,
            fieldWrites_cons, fieldWrites_nil, Field.writes_plain, Field.writes_styled, blank,
            List.append_nil, List.append_assoc]
          rfl
        · rw [if_neg htail, if_neg htail, fieldWrites_cons, fieldWrites_cons,
            fieldWrites_nil, Field.writes_styled, List.append_nil]
          rfl
    · rw [if_neg hlength, if_neg hlength]
      simp [fieldWrites, Field.writes, Field.styled]

theorem dumpStackFrameInfoImpl_eq {linePrefix : List Byte} (hfront : linePrefix.length + 2 ≤ 64)
    (hsize : 1024 ≤ env.platform.sizeMax) (pc : UInt64) (kind : FrameAddress) :
    dumpStackFrameInfoImpl env linePrefix pc kind =
      some (fieldWrites env.mode (frameFields env linePrefix pc kind)) := by
  obtain ⟨uri, huri, -⟩ :=
    frameUri_safe hsize (frameSpan (env.symbolize (symbolizedAddress pc kind)))
  obtain ⟨addr, haddr, haddrText⟩ := appendHexWithPadding_address pc
  have hplain : (appendString (bytes "@ ") (appendString linePrefix (formatter 64))).written =
      linePrefix ++ bytes "@ " := by
    rw [appendString_append, written_formatter]
    rw [List.length_append]
    exact hfront
  rw [dumpStackFrameInfoImpl.eq_def, frameFields]
  change (frameUri env (frameSpan (env.symbolize (symbolizedAddress pc kind)))).bind _ = _
  rw [huri, Option.bind_some, Option.getD_some]
  change (appendHexWithPadding pc 18 (formatter 32)).bind _ = _
  rw [haddr, Option.bind_some, hplain, haddrText]
  change (dumpSymbol env (env.symbolize (symbolizedAddress pc kind)) uri).bind _ = _
  rw [dumpSymbol_eq, Option.bind_some, fieldWrites_append, fieldWrites_append, fieldWrites_cons,
    fieldWrites_cons, fieldWrites_cons, fieldWrites_nil, fieldWrites_cons, fieldWrites_nil,
    Field.writes_plain, Field.writes_styled, Field.writes_plain, Field.writes_plain, blank, lineEnd,
    List.append_nil, List.append_nil]
  rfl

/-- The stack is written frame by frame. -/
theorem dumpFrames_eq (hsize : 1024 ≤ env.platform.sizeMax) (pc : UInt64) (stack : List UInt64) :
    dumpFrames env pc stack = some (fieldWrites env.mode (stack.flatMap fun frame =>
      frameFields env (bytes "    ") frame
        (if frame = pc then .kInstruction else .kReturnAddress))) := by
  induction stack with
  | nil => rfl
  | cons frame stack ih =>
    rw [dumpFrames, dumpStackFrameInfoImpl_eq env (by decide +kernel) hsize, ih, List.flatMap_cons,
      fieldWrites_append]
    rfl

/-- No buffer cuts a field, other than the one of the file and the line. -/
theorem handleSignal_eq (hsize : 1024 ≤ env.platform.sizeMax) {signalNumber : ℤ}
    (h : 0 ≤ signalNumber ∧ signalNumber < 2 ^ 31) (siginfo : Siginfo) (pc : UInt64)
    (stack : List UInt64) :
    handleSignal env signalNumber siginfo pc stack =
      some (fieldWrites env.mode (reportFields env signalNumber siginfo pc stack)) := by
  have hdepth : stack.take (if stack.length > kMaxStackDumpFrames then kMaxStackDumpFrames
      else stack.length) = stack.take kMaxStackDumpFrames := by
    split
    · rfl
    · rw [List.take_length, List.take_of_length_le (by omega)]
  rw [handleSignal, dumpTimeInfo_eq, dumpSignalInfo_eq env h,
    dumpStackFrameInfoImpl_eq env (by decide +kernel) hsize]
  simp only [Option.bind_eq_bind, Option.bind_some, hdepth, dumpFrames_eq env hsize, reportFields,
    fieldWrites_append]
  split <;> rfl

end Signals

end NgLog
