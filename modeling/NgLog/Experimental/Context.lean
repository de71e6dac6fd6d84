import NgLog.Message.Flush
import NgLog.Support.Unwinding

/-!
# The context of a message

The attributes of a message have hooks, which inspect and modify its context, decide whether it is
logged, and add text to it. Any code can run in a hook; it can do anything but read and set the
context that is formatted on the thread, which no code outside of the implementation has a name for.

## Main definitions

* `Context` — `ContextImpl`
* `Visible`, `World` — the state of a thread, as far as any code can access it, and all of it
* `Hooks` — the hooks of an attribute
* `runHooks`, `passHooks` — the loops over the attributes
-/

namespace NgLog

namespace Experimental

open Message (Severity LogStream)
open Unwinding

/-- The address of a sink, a string or a vector. -/
abbrev Address : Type := ℕ

/-- Where a message goes in addition to or instead of the logs. -/
inductive Destination
  | kLog
  | kSyslog
  | kSinkAndLog
  | kStringAndLog
  | kVectorOrLog
  deriving DecidableEq

/-- An entry of `FieldStore`. -/
structure Field where
  name : List Byte
  value : List Byte

/-- `ContextImpl`, with the text of the occurrences instead of their bytes and the function that
converts them. -/
structure Context where
  location : ℕ
  debug : Bool
  preservedErrno : ℤ
  severity : Severity
  tag : Option (List Byte)
  occurrences : Option (List Byte)
  debugFatal : Bool
  escalateInDebug : Bool
  destination : Destination
  async : Bool
  skipLogFile : Bool
  sinks : List Address
  structuredSinks : List Address
  strings : List Address
  vectors : List Address
  fields : List Field

namespace Context

/-- A new context. -/
def init (location : ℕ) (debug : Bool) (preservedErrno : ℤ) : Context where
  location := location
  debug := debug
  preservedErrno := preservedErrno
  severity := .info
  tag := none
  occurrences := none
  debugFatal := false
  escalateInDebug := false
  destination := .kLog
  async := false
  skipLogFile := false
  sinks := []
  structuredSinks := []
  strings := []
  vectors := []
  fields := []

/-- `Add`, for a pointer that is ignored if it is null. -/
def add (targets : List Address) (target : Option Address) : List Address :=
  targets ++ target.toList

end Context

/-- The state of a thread that any code can access, with other state `σ`. -/
structure Visible (σ : Type) where
  errno : ℤ
  strings : Address → List Byte
  vectors : Address → List (List Byte)
  other : σ

/-- The state of a thread: `formatting_context` points at the context of the message that is
formatted. -/
structure World (σ : Type) extends Visible σ where
  formatting : Option Context

/-- A hook that takes a context. -/
abbrev ContextHook (σ ε α : Type) : Type := Block (World σ × Context) ε α

/-- A hook that takes a message under construction, with its stream. -/
abbrev MessageHook (σ ε : Type) : Type := Block (World σ × LogStream) ε Unit

/-- A hook that takes a `FieldWriter`. -/
abbrev FieldsHook (σ ε : Type) : Type := Block (World σ × List Field) ε Unit

/-- `Hooks`, with the attribute they are called for. -/
structure Hooks (σ ε : Type) where
  configure : Option (ContextHook σ ε Unit)
  admits : Option (ContextHook σ ε Bool)
  throttle : Option (ContextHook σ ε Bool)
  prefixHook : Option (MessageHook σ ε)
  suffixHook : Option (MessageHook σ ε)
  fields : Option (FieldsHook σ ε)

variable {σ ε τ : Type}

/-- `RunHooks` -/
def runHooks (attributes : List (Hooks σ ε)) (hook : Hooks σ ε → Option (Block τ ε Unit)) :
    Block τ ε Unit :=
  .forEach (fun hooks => (hook hooks).getD (.pure ())) attributes

/-- `PassHooks` -/
def passHooks (attributes : List (Hooks σ ε)) (hook : Hooks σ ε → Option (Block τ ε Bool)) :
    Block τ ε Bool :=
  .allOf (fun hooks => (hook hooks).getD (.pure true)) attributes

variable {I : τ → Prop} {attributes : List (Hooks σ ε)}

theorem preserves_runHooks {hook : Hooks σ ε → Option (Block τ ε Unit)}
    (h : ∀ hooks ∈ attributes, ∀ run ∈ hook hooks, Preserves I run) :
    Preserves I (runHooks attributes hook) := by
  refine .forEach fun hooks hmem => ?_
  cases hrun : hook hooks with
  | none => exact preserves_pure ()
  | some run => exact h hooks hmem run hrun

theorem preserves_passHooks {hook : Hooks σ ε → Option (Block τ ε Bool)}
    (h : ∀ hooks ∈ attributes, ∀ run ∈ hook hooks, Preserves I run) :
    Preserves I (passHooks attributes hook) := by
  refine .allOf fun hooks hmem => ?_
  cases hrun : hook hooks with
  | none => exact preserves_pure true
  | some run => exact h hooks hmem run hrun

end Experimental

end NgLog
