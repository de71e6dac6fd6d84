import NgLog.Experimental.Context

/-!
# Dispatching a message

`Dispatch` configures a context, asks the attributes whether the message is to be logged, and
composes and sends it. Hooks, formatters and sinks are any code. They can throw an exception or end
the process, and they can log themselves.

## Main definitions

* `Library`, `Call` — what a dispatch takes
* `admits`, `isAdmitted`, `compose`, `dispatch` — the functions
* `Piece`, `format` — the parts of a format string
-/

namespace NgLog

namespace Experimental

open Message (Severity LogStream)
open Unwinding

variable {σ ε α τ : Type}

/-! ### The functions -/

/-- `CallerConfiguration` -/
structure CallerConfiguration where
  stripLevel : ℤ
  debug : Bool

/-- What `LogMessage` and the sinks do, which are code elsewhere. -/
structure Library (σ ε : Type) where
  /-- The flags and globals that a message depends on. -/
  environment : World σ → Message.Environment
  /-- `exit_on_dfatal` is set, and no exception is propagated. -/
  exitsOnDfatal : World σ → Bool
  /-- What `message_text_` holds before it is written. -/
  messageText : Message.MessageText
  /-- The part of `LogMessage::Init` that writes the prefix. -/
  init : Context → MessageHook σ ε
  /-- What `Init` writes behind the prefix: the stack trace of `--log_backtrace_at`. -/
  backtrace : Context → MessageHook σ ε
  /-- `send` of a sink. -/
  send : Address → List Byte → MessageHook σ ε
  /-- `Send` of a structured sink. -/
  sendRecord : Address → Context → List Byte → MessageHook σ ε
  /-- The log files, the standard error, syslog, email and the registered sinks. -/
  write : Message.Destination → List Byte → MessageHook σ ε
  /-- `g_logging_fail_func` -/
  fail : MessageHook σ ε

/-- `IsLogSeverityEnabled` -/
def isLogSeverityEnabled (library : Library σ ε) (w : World σ) (severity : Severity) : Bool :=
  severity = .fatal ∨ (library.environment w).minloglevel.toInt ≤ severity.toInt

/-- The escalation in `Admit`. -/
def escalate (context : Context) : Context :=
  if context.escalateInDebug ∧ context.debug ∧ context.severity ≠ .fatal then
    { context with severity := .fatal, debugFatal := true }
  else context

/-- `Admit` -/
def admits (library : Library σ ε) (attributes : List (Hooks σ ε))
    (configuration : CallerConfiguration) :
    ContextHook σ ε Bool :=
  (runHooks attributes Hooks.configure).bind fun _ =>
    (Block.modify fun s => (s.1, escalate s.2)).bind fun _ =>
      (passHooks attributes Hooks.admits).bind fun admitted =>
        if !admitted then .pure false
        else Block.get.bind fun s =>
          if s.2.severity.toInt < configuration.stripLevel then
            if s.2.severity = .fatal then .abort else .pure false
          else (passHooks attributes Hooks.throttle).bind fun passed =>
            if !passed then .pure false
            else Block.get.bind fun s => .pure (isLogSeverityEnabled library s.1 s.2.severity)

/-- `IsAdmitted` -/
def isAdmitted (attributes : List (Hooks σ ε)) (configuration : CallerConfiguration)
    (location : ℕ) :
    Block (World σ) ε Bool := fun w =>
  (((runHooks attributes Hooks.configure).bind fun _ => passHooks attributes Hooks.admits).locally
    (Context.init location configuration.debug 0)).bind (fun admitted =>
      (Block.modify fun w' => { w' with errno := w.errno }).bind fun _ => .pure admitted) w

/-- The send method and the target that `Output` constructs a message with. -/
def sendMethod (context : Context) : Message.SendMethod :=
  match context.destination with
  | .kLog => .sendToLog
  | .kSyslog => .sendToSyslogAndLog
  | .kSinkAndLog => if context.skipLogFile then .sendToSink else .sendToSinkAndLog
  | .kStringAndLog => .writeToStringAndLog
  | .kVectorOrLog => .saveOrSendToLog

/-- Whether the pointer to the target is not null. -/
def hasTarget (context : Context) : Bool :=
  match context.destination with
  | .kLog | .kSyslog => false
  | .kSinkAndLog => context.sinks ≠ [] ∨ context.structuredSinks ≠ []
  | .kStringAndLog => context.strings ≠ []
  | .kVectorOrLog => context.vectors ≠ []

/-- The message as `Flush` finds it. -/
def messageData (context : Context) (numPrefixChars : ℕ) (stream : LogStream) :
    Message.MessageData where
  stream := stream
  severity := context.severity
  sendMethod := sendMethod context
  pointer := hasTarget context
  numPrefixChars := numPrefixChars
  numCharsToLog := 0
  numCharsToSyslog := 0
  hasBeenFlushed := false

/-- Assign to a string. -/
def World.setString (w : World σ) (target : Address) (text : List Byte) : World σ :=
  { w with strings := Function.update w.strings target text }

/-- Append to a vector. -/
def World.pushVector (w : World σ) (target : Address) (text : List Byte) : World σ :=
  { w with vectors := Function.update w.vectors target (w.vectors target ++ [text]) }

/-- A text that `Flush` passes on. The sinks are called one after the other, the structured ones
last. -/
def deliver (library : Library σ ε) (context : Context) :
    Message.Destination × List Byte → MessageHook σ ε
  | (.sink, text) =>
    (Block.forEach (fun sink => library.send sink text) context.sinks).bind fun _ =>
    .forEach (fun sink => library.sendRecord sink context text) context.structuredSinks
  | (.string, text) => .modify fun s =>
    (context.strings.head?.elim s.1 fun target => s.1.setString target text, s.2)
  | (.vector, text) => .modify fun s =>
    (context.vectors.head?.elim s.1 fun target => s.1.pushVector target text, s.2)
  | (destination, text) => library.write destination text

/-- The destructor of the message ends the process, or throws: it is one of `LogMessageFatal`, or of
a fatal `LogMessage` while `exit_on_dfatal` is set. -/
def fails (library : Library σ ε) (context : Context) (w : World σ) : Bool :=
  context.severity = .fatal ∧
    ((context.destination = .kLog ∧ !context.debugFatal) ∨ library.exitsOnDfatal w)

/-- The destructor of the message. A message whose text cannot be sent within its array ends
here. -/
def release (library : Library σ ε) (context : Context) (numPrefixChars : ℕ) : MessageHook σ ε :=
  fun s =>
  match Message.flush (library.environment s.1) (messageData context numPrefixChars s.2) with
  | none => .ended s
  | some (data, received) =>
    ((Block.forEach (deliver library context) received).bind fun _ =>
      (Block.modify fun s =>
        (if data.hasBeenFlushed ∧ context.preservedErrno ≠ 0 then
          { s.1 with errno := context.preservedErrno } else s.1, s.2)).bind
        fun _ => Block.get.bind fun s =>
          if fails library context s.1 then library.fail.bind fun _ => .abort else .pure ()) s

/-- The other strings get the text of the first one. -/
def copyStrings (context : Context) (w : World σ) : World σ :=
  match context.strings with
  | [] => w
  | first :: others => others.foldl (fun w target => w.setString target (w.strings first)) w

/-- The other vectors get the last entry of the first one, if it has got another one. -/
def copyVectors (context : Context) (vectorSize : ℕ) (w : World σ) : World σ :=
  match context.vectors with
  | [] => w
  | first :: others =>
    if (w.vectors first).length ≠ vectorSize then
      others.foldl (fun w target => w.pushVector target ((w.vectors first).getLastD [])) w
    else w

/-- `Output::Send` -/
def send (library : Library σ ε) (context : Context) (numPrefixChars vectorSize : ℕ) :
    MessageHook σ ε :=
  (release library context numPrefixChars).bind fun _ =>
    .modify fun s => (copyVectors context vectorSize (copyStrings context s.1), s.2)

/-- `FormattingScope` -/
def withFormatting (context : Context) (x : MessageHook σ ε) : MessageHook σ ε :=
  x.within (fun s => s.1.formatting)
    (fun formatting s => ({ s.1 with formatting := formatting }, s.2))
    (some context)

/-- The part of `Compose` behind the construction of the message. -/
def composeText (attributes : List (Hooks σ ε)) (context : Context)
    (composer : MessageHook σ ε) (output : MessageHook σ ε) : MessageHook σ ε :=
  (((runHooks attributes Hooks.prefixHook).bind fun _ =>
    (withFormatting context composer).bind fun _ => runHooks attributes Hooks.suffixHook).catching
      fun e => output.bind fun _ => .throw e).bind fun _ => output

/-- The part of `Compose` that has an `Output`. -/
def composeOutput (library : Library σ ε) (attributes : List (Hooks σ ε)) (context : Context)
    (composer : MessageHook σ ε) : MessageHook σ ε :=
  (library.init context).bind fun _ => Block.get.bind fun constructed =>
    (library.backtrace context).bind fun _ => Block.get.bind fun s =>
      composeText attributes context composer (send library context constructed.2.pcount
        (context.vectors.head?.elim 0 fun target => (s.1.vectors target).length))

/-- `Compose` -/
def compose (library : Library σ ε) (attributes : List (Hooks σ ε)) (composer : MessageHook σ ε) :
    ContextHook σ ε Unit :=
  (Block.get.bind fun s =>
    if s.2.structuredSinks ≠ [] then
      (runHooks attributes Hooks.fields).zoom (fun s => (s.1, s.2.fields)) fun t s =>
        (t.1, { s.2 with fields := t.2 })
    else .pure ()).bind fun _ =>
  (Block.modify fun s => ({ s.1 with errno := s.2.preservedErrno }, s.2)).bind fun _ =>
  Block.get.bind fun s =>
    ((composeOutput library attributes s.2 composer).locally
      (LogStream.init library.messageText)).zoom Prod.fst fun w s => (w, s.2)

/-- A call of a logging function. -/
structure Call (σ ε : Type) where
  library : Library σ ε
  attributes : List (Hooks σ ε)
  configuration : CallerConfiguration
  location : ℕ
  composer : MessageHook σ ε

/-- `Dispatch`, with `ErrnoRestorer` as a destructor. -/
def dispatch (call : Call σ ε) : Block (World σ) ε Unit := fun w =>
  ((((admits call.library call.attributes call.configuration).bind fun admitted =>
    if admitted then compose call.library call.attributes call.composer else .pure ()).cleanup
      fun s => ({ s.1 with errno := s.2.preservedErrno }, s.2)).locally
        (Context.init call.location call.configuration.debug w.errno)) w

/-- A part of a format string: text, the placeholder of the occurrences, or another argument. -/
inductive Piece (σ ε : Type)
  | literal (text : List Byte)
  | occurrence
  | argument (format : MessageHook σ ε)

/-- `FormatOccurrence` -/
def formatOccurrence : MessageHook σ ε := .modify fun s =>
  (s.1, s.2.append ((s.1.formatting.bind Context.occurrences).getD []))

/-- What is done for a part of a format string. -/
def Piece.format : Piece σ ε → MessageHook σ ε
  | .literal text => .modify fun s => (s.1, s.2.append text)
  | .occurrence => formatOccurrence
  | .argument format => format

/-- `std::vformat_to` -/
def format (pieces : List (Piece σ ε)) : MessageHook σ ε := .forEach Piece.format pieces

/-! ### What the admission preserves -/

theorem preserves_admits {library : Library σ ε} {attributes : List (Hooks σ ε)}
    {configuration : CallerConfiguration} {I : World σ × Context → Prop}
    (hconfigure : ∀ hooks ∈ attributes, ∀ x ∈ hooks.configure, Preserves I x)
    (hescalate : ∀ s, I s → I (s.1, escalate s.2))
    (hadmits : ∀ hooks ∈ attributes, ∀ x ∈ hooks.admits, Preserves I x)
    (hthrottle : ∀ hooks ∈ attributes, ∀ x ∈ hooks.throttle, Preserves I x) :
    Preserves I (admits library attributes configuration) := by
  refine (preserves_runHooks hconfigure).bind fun _ => (preserves_modify hescalate).bind fun _ => ?_
  refine (preserves_passHooks hadmits).bind fun admitted => ?_
  split
  · exact preserves_pure false
  · refine preserves_get.bind fun s => ?_
    split
    · split
      · exact preserves_abort
      · exact preserves_pure false
    · refine (preserves_passHooks hthrottle).bind fun passed => ?_
      split
      · exact preserves_pure false
      · exact preserves_get.bind fun s => preserves_pure _

end Experimental

end NgLog
