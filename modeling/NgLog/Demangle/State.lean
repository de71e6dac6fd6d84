import NgLog.Support.Backtracking
import NgLog.Support.Bytes
import Mathlib.Data.Int.Notation

/-!
# The demangler's state, its output buffer and its tokens

`src/demangle.cc` parses a NUL-terminated mangled name with one cursor and writes what it
recognises to the caller's buffer. The parse functions take a `State*`, copy `*state` before an
alternative and assign the copy back when the alternative fails; the bytes already written to the
buffer and the step budget are not part of that copy. This is the split of `Backtracking.Machine`:
`State` is saved and restored, `Store` is shared.

Pointers are offsets: `mangledCur` into the mangled name, `outCur` and `prevName` into the buffer.
`Demangle` rejects a null buffer before it initialises the state, so the null checks on
`out_begin` and `out_cur` never fire and are left out.

## Undefined behaviour

The functions below read and write through offsets that they check, and return a `Fault` where the
source would leave its buffers: reading or moving the cursor past the terminating NUL, writing
outside the caller's buffer, reading a buffer byte that this run has not written, or decrementing a
level counter that is zero. A run that returns `.ok` has done none of these.

## Ghost state

Three fields are not in the source. `Cell.written` marks the bytes that this run has written.
`Store.ops` lists the writes of the run, newest first, those of abandoned alternatives included;
`State.kept` is saved and restored with the state, so that it holds the writes of the current
derivation.

## Main definitions

* `State`, `Store`, `Fault`, `Parser` — the machine
* `append`, `maybeAppendWithLength`, `maybeAppendSeparator`, `maybeCancelLastSeparator` — the output
* `parseOneCharToken`, `parseTwoCharToken`, `parseCharClass` — the tokens
-/

namespace NgLog

namespace Demangle

open Backtracking (Machine)

/-! ### The machine -/

/-- What the source leaves undefined, and running out of the model's fuel. -/
inductive Fault
  /-- A byte of the mangled name past its terminator was read. -/
  | readPastEnd
  /-- `mangled_cur` was moved past the terminator. -/
  | cursorPastEnd
  /-- A byte outside the caller's buffer was written. -/
  | writeOutside
  /-- A buffer byte that this run has not written was read. -/
  | readUnwritten
  /-- A level counter was decremented below zero. -/
  | levelUnderflow
  /-- The model ran out of fuel: the source would loop or recurse without end. -/
  | outOfFuel
  deriving DecidableEq, Repr

/-- A byte of the caller's buffer. -/
structure Cell where
  /-- The byte in memory. -/
  byte : Byte
  /-- Ghost: this run has written it. -/
  written : Bool
  deriving DecidableEq, Repr

/-- What a write to the output does to the text. -/
inductive OutputOp
  /-- `Append` adds the byte `b`. -/
  | put (b : Byte)
  /-- `Append` terminates the text, or `Demangle` the empty text at its start. -/
  | terminate
  /-- `MaybeCancelLastSeparator` takes two bytes back. `own` says that the separator was the one
  that the same iteration of `ParsePrefix` had appended. -/
  | cut (own : Bool)
  deriving DecidableEq, Repr

/-- The byte that is written. -/
def OutputOp.byte : OutputOp → Byte
  | .put b => b
  | .terminate => 0
  | .cut _ => 0

/-- Ghost record of a write to the output. -/
structure Write where
  /-- The number of writes that the run had made before it. -/
  time : ℕ
  /-- The offset in the buffer. -/
  pos : ℕ
  op : OutputOp
  deriving DecidableEq, Repr

/-- `struct State`, the part that the copies of backtracking restore. -/
structure State where
  /-- Cursor of the mangled name. -/
  mangledCur : ℕ
  /-- Cursor of the output string. -/
  outCur : ℕ
  /-- For constructors and destructors. -/
  prevName : Option ℕ
  prevNameLength : ℤ
  /-- For nested names; a `short`. -/
  nestLevel : Int16
  append : Bool
  /-- True if the output overflowed. -/
  overflowed : Bool
  skipSeparator : Bool
  localLevel : ℕ
  exprLevel : ℕ
  argLevel : ℕ
  pendingRefQualifier : Byte
  encodingLevel : ℕ
  typeLevel : ℕ
  parseDepth : ℕ
  /-- Ghost: the writes of this derivation, newest first. -/
  kept : List Write
  deriving DecidableEq, Repr

/-- What backtracking does not restore. -/
structure Store where
  /-- The caller's buffer `out[0, out_size)`. -/
  out : List Cell
  /-- The budget that all copies of the state share. -/
  stepsRemaining : ℕ
  /-- Ghost: the writes of the run, newest first. -/
  ops : List Write
  deriving DecidableEq, Repr

/-- A parse function on the mangled name `w`. -/
def Parser (_input : CString) (α : Type) : Type := Backtracking.Parser Fault State Store α

instance {w : CString} : Monad (Parser w) where
  pure := Backtracking.Parser.pure
  bind := Backtracking.Parser.bind

variable {w : CString}

/-- The number of bytes left before the terminator. -/
def remaining (w : CString) (m : Machine State Store) : ℕ := w.length - m.state.mangledCur

/-- Undefined behaviour. -/
def fault {α : Type} (e : Fault) : Parser w α := fun _ => .error e

/-- Continue with the current `*state`. -/
def saving {α : Type} (k : State → Parser w α) : Parser w α := fun m => k m.state m

/-- Assign fields of `*state`. -/
def modify (g : State → State) : Parser w Bool := fun m => .ok (true, ⟨g m.state, m.store⟩)

theorem bind_run {α β : Type} (f : Parser w α) (k : α → Parser w β)
    (m : Machine State Store) : (f >>= k) m = match f m with
      | .ok (a, m') => k a m'
      | .error e => .error e := by
  change Backtracking.Parser.bind f k m = _
  unfold Backtracking.Parser.bind
  cases f m <;> rfl

theorem bind_ok {α β : Type} {f : Parser w α} {k : α → Parser w β}
    {m m' : Machine State Store} {a : α} (h : f m = .ok (a, m')) : (f >>= k) m = k a m' := by
  rw [bind_run, h]

theorem bind_error {α β : Type} {f : Parser w α} {k : α → Parser w β}
    {m : Machine State Store} {e : Fault} (h : f m = .error e) : (f >>= k) m = .error e := by
  rw [bind_run, h]

theorem pure_run {α : Type} (a : α) (m : Machine State Store) :
    (pure a : Parser w α) m = .ok (a, m) := rfl

theorem saving_run {α : Type} (k : State → Parser w α) (m : Machine State Store) :
    saving k m = k m.state m := rfl

/-- `State copy = *state; if (f(state)) return true; *state = copy; return false;` -/
def attempt (f : Parser w Bool) : Parser w Bool := Backtracking.Parser.attempt f

/-- `Optional(f(state))`. -/
def optional (f : Parser w Bool) : Parser w Bool := Backtracking.Parser.optional f

/-- `ZeroOrMore(f, state)`. -/
def zeroOrMore (f : Parser w Bool) : Parser w Bool :=
  Backtracking.Parser.zeroOrMore .outOfFuel (remaining w) f

/-- `if (cond(state)) return f(state); return g(state);` -/
def branch (cond f g : Parser w Bool) : Parser w Bool :=
  Backtracking.Parser.branch cond f g

/-- `State copy = *state; if (cond(state)) { if (f(state)) return true; *state = copy;
if (g(state)) return true; } *state = copy; return false;` -/
def attemptTwice (cond f g : Parser w Bool) : Parser w Bool :=
  Backtracking.Parser.attemptTwice cond f g

/-- `OneOrMore(f, state)`. -/
def oneOrMore (f : Parser w Bool) : Parser w Bool := f <&&> zeroOrMore f

/-- The bytes of the mangled name from the cursor to its terminator. -/
def rest (w : CString) (state : State) : List Byte := w.text.drop state.mangledCur

/-- `state->mangled_cur[offset]`. -/
def peek (offset : ℕ) : Parser w Byte := fun m =>
  if m.state.mangledCur + offset ≤ w.length then
    .ok (w.byteAt (m.state.mangledCur + offset), m)
  else .error .readPastEnd

/-- `mangled_cur += count`. -/
def advance (count : ℕ) : Parser w Bool := fun m =>
  if m.state.mangledCur + count ≤ w.length then
    .ok (true, ⟨{ m.state with mangledCur := m.state.mangledCur + count }, m.store⟩)
  else .error .cursorPastEnd

/-- `while (state->mangled_cur[0] is not one of stops) { if (!f(state)) return false; }`, with
`least` if one round is required. -/
def parseUntil (stops : List Byte) (least : Bool) (f : Parser w Bool) : Parser w Bool :=
  Backtracking.Parser.repeatUntil .outOfFuel (remaining w)
    (show Parser w Bool from do return stops.contains (← peek 0)) least f

/-! ### Level guards -/

/-- The counters of `ParseLevelGuard`, by the type alias that uses them. -/
inductive Level
  | depth | encoding | type | templateArg | expression | localName
  deriving DecidableEq, Repr

/-- `state->*level`. -/
def State.level (s : State) : Level → ℕ
  | .depth => s.parseDepth
  | .encoding => s.encodingLevel
  | .type => s.typeLevel
  | .templateArg => s.argLevel
  | .expression => s.exprLevel
  | .localName => s.localLevel

/-- `state->*level = value`. -/
def State.setLevel (s : State) (value : ℕ) : Level → State
  | .depth => { s with parseDepth := value }
  | .encoding => { s with encodingLevel := value }
  | .type => { s with typeLevel := value }
  | .templateArg => { s with argLevel := value }
  | .expression => { s with exprLevel := value }
  | .localName => { s with localLevel := value }

/-- `kMaxParseDepth`, `kMaxEncodingLevel`, `kMaxTypeLevel`, `kMaxTemplateArgumentLevel`,
`kMaxExpressionLevel` and `kMaxLocalNameLevel`. -/
def maxLevel : Level → ℕ
  | .depth => 64
  | .encoding => 64
  | .type => 64
  | .templateArg => 64
  | .expression => 64
  | .localName => 64

/-- `kMaxParseSteps`. -/
def kMaxParseSteps : ℕ := 1 <<< 17

/-- The constructor of `ParseLevelGuard`: whether the level could be entered. -/
def enterLevel (level : Level) : Parser w Bool := fun m =>
  if m.state.level level < maxLevel level then
    .ok (true, ⟨m.state.setLevel (m.state.level level + 1) level, m.store⟩)
  else .ok (false, m)

/-- The destructor of a `ParseLevelGuard` that entered the level. -/
def leaveLevel (level : Level) : Parser w Unit := fun m =>
  if 0 < m.state.level level then
    .ok ((), ⟨m.state.setLevel (m.state.level level - 1) level, m.store⟩)
  else .error .levelUnderflow

/-- `ParseLevelGuard level(state); if (!level) return false;` around the rest of a function. -/
def guardLevel (level : Level) (body : Parser w Bool) : Parser w Bool := do
  if ← enterLevel level then
    let result ← body
    leaveLevel level
    return result
  else
    return false

/-- Whether a step is left, and then one step less. -/
def countStep : Parser w Bool := fun m =>
  if 0 < m.store.stepsRemaining then
    .ok (true, ⟨m.state, { m.store with stepsRemaining := m.store.stepsRemaining - 1 }⟩)
  else .ok (false, m)

/-- `ParseDepthGuard depth(state); if (!depth) return false;` around the rest of a function. -/
def guardDepth (body : Parser w Bool) : Parser w Bool :=
  guardLevel .depth (countStep <&&> body)

/-! ### Characters -/

/-- `IsLower`. -/
def isLower (c : Byte) : Bool := 'a'.toUInt8 ≤ c && c ≤ 'z'.toUInt8

/-- `IsAlpha`. -/
def isAlpha (c : Byte) : Bool :=
  ('a'.toUInt8 ≤ c && c ≤ 'z'.toUInt8) || ('A'.toUInt8 ≤ c && c ≤ 'Z'.toUInt8)

/-- `IsDigit`. -/
def isDigit (c : Byte) : Bool := '0'.toUInt8 ≤ c && c ≤ '9'.toUInt8

/-! ### Tokens -/

/-- `AtLeastNumCharsRemaining`: `memchr` finds no NUL in the next `n` bytes. -/
def atLeastNumCharsRemaining (n : ℕ) : Parser w Bool := fun m =>
  .ok (!((w.array.drop m.state.mangledCur).take n).contains 0, m)

/-- `StrPrefix(state->mangled_cur, prefix)`; `strncmp` stops at the terminator. -/
def strPrefix (text : String) : Parser w Bool := fun m =>
  .ok ((bytes text).isPrefixOf (rest w m.state), m)

/-- `ParseOneCharToken`. "It is assumed that `one_char_token` does not contain NUL." -/
def parseOneCharToken (oneCharToken : Char) (_h : oneCharToken.toUInt8 ≠ 0 := by decide) :
    Parser w Bool := do
  if (← peek 0) == oneCharToken.toUInt8 then advance 1 else return false

/-- `ParseTwoCharToken`, under the same assumption. -/
def parseTwoCharToken (twoCharToken : String)
    (_h : (bytes twoCharToken).length = 2 := by decide) : Parser w Bool := do
  if ← strPrefix twoCharToken then advance 2 else return false

/-- `ParseCharClass`. -/
def parseCharClass (charClass : String) : Parser w Bool := do
  let c ← peek 0
  if c != 0 && (bytes charClass).contains c then advance 1 else return false

/-! ### The output buffer -/

/-- `*(out_begin + i)`. -/
def readOut (i : ℕ) : Parser w Byte := fun m =>
  match m.store.out[i]? with
  | some cell => if cell.written then .ok (cell.byte, m) else .error .readUnwritten
  | none => .error .readUnwritten

/-- `*(out_begin + i) = b` for the byte that `op` writes, which is recorded. -/
def writeOut (i : ℕ) (op : OutputOp) : Parser w Unit := fun m =>
  if i < m.store.out.length then
    .ok ((), ⟨{ m.state with kept := ⟨m.store.ops.length, i, op⟩ :: m.state.kept },
      { m.store with
        out := m.store.out.set i ⟨op.byte, true⟩
        ops := ⟨m.store.ops.length, i, op⟩ :: m.store.ops }⟩)
  else .error .writeOutside

/-- What `Append` copies: bytes outside the buffer, or bytes of the buffer itself. -/
inductive Text
  /-- A literal or a part of the mangled name. -/
  | bytes (text : List Byte)
  /-- `length` bytes of the buffer from the offset `start`. -/
  | out (start length : ℕ)

/-- The number of bytes to copy. -/
def Text.length : Text → ℕ
  | .bytes text => text.length
  | .out _ length => length

/-- `str[i]`. -/
def Text.get (str : Text) (i : ℕ) : Parser w Byte :=
  match str with
  | .bytes text => if h : i < text.length then pure text[i] else fault .readPastEnd
  | .out start _ => readOut (start + i)

/-- The loop of `Append` from index `i`, for the `n` bytes left. -/
def appendLoop (str : Text) : ℕ → ℕ → Parser w Unit
  | 0, _ => pure ()
  | n + 1, i => fun m =>
    if m.store.out.length - m.state.outCur > 1 then  -- +1 for '\0'
      (do
        let b ← str.get i
        writeOut m.state.outCur (.put b)
        let _ ← modify fun state => { state with outCur := state.outCur + 1 }
        appendLoop str n (i + 1) : Parser w Unit) m
    else .ok ((), ⟨{ m.state with overflowed := true }, m.store⟩)

/-- `Append(state, str, length)`. -/
def append (str : Text) : Parser w Unit := do
  appendLoop str str.length 0
  saving fun state => do
    if !state.overflowed then
      writeOut state.outCur .terminate

/-- Append a space if the output buffer ends with '<' and "str" starts with '<' to avoid <<<. -/
def separateAngles (str : Text) : Parser w Unit := do
  if (← str.get 0) == '<'.toUInt8 then
    saving fun state => do
      if 0 < state.outCur then
        if (← readOut (state.outCur - 1)) == '<'.toUInt8 then
          append (.bytes (bytes " "))

/-- Append "str", and remember the last identifier name for ctors and dtors, once it was fully
written. -/
def appendName (str : Text) : Parser w Unit := saving fun before => do
  append str
  saving fun after => do
    if !after.overflowed then
      let first ← str.get 0
      if isAlpha first || first == '_'.toUInt8 then
        let _ ← modify fun state =>
          { state with prevName := some before.outCur, prevNameLength := str.length }

/-- `MaybeAppendWithLength(state, str, length)`. -/
def maybeAppendWithLength (str : Text) : Parser w Bool := saving fun state => do
  if state.append && str.length > 0 then
    separateAngles str
    appendName str
  return true

/-- `MaybeAppend(state, str)`; `strlen` of the literal is its length. -/
def maybeAppend (str : String) (_h : 0 ∉ bytes str := by decide) : Parser w Bool :=
  maybeAppendWithLength (.bytes (bytes str))

/-- The separator of nested names has no NUL. -/
theorem zero_notMem_separator : 0 ∉ bytes "::" := by decide

/-! ### Nested names -/

/-- `EnterNestedName`. -/
def enterNestedName : Parser w Bool := modify fun state => { state with nestLevel := 0 }

/-- `LeaveNestedName`. -/
def leaveNestedName (prevValue : Int16) : Parser w Bool :=
  modify fun state => { state with nestLevel := prevValue }

/-- `DisableAppend`: do not print function parameters, etc. -/
def disableAppend : Parser w Bool := modify fun state => { state with append := false }

/-- `RestoreAppend`. -/
def restoreAppend (prevValue : Bool) : Parser w Bool :=
  modify fun state => { state with append := prevValue }

/-- `MaybeIncreaseNestLevel`. -/
def maybeIncreaseNestLevel : Parser w Bool := modify fun state =>
  if state.nestLevel > -1 then { state with nestLevel := state.nestLevel + 1 } else state

/-- `MaybeAppendSeparator`: appends `::` for nested names if necessary. -/
def maybeAppendSeparator : Parser w Bool := saving fun state =>
  if state.skipSeparator then modify fun state => { state with skipSeparator := false }
  else if state.nestLevel ≥ 1 then maybeAppend "::" zero_notMem_separator
  else pure true

/-- `MaybeCancelLastSeparator`. The ghost `before` is `out_cur` at the start of this iteration of
`ParsePrefix`: the separator is its own if the text has grown by exactly its two bytes. -/
def maybeCancelLastSeparator (before : ℕ) : Parser w Unit := saving fun state => do
  if state.nestLevel ≥ 1 && state.append && state.outCur ≥ 2 then
    let _ ← modify fun state => { state with outCur := state.outCur - 2 }
    writeOut (state.outCur - 2) (.cut (state.outCur == before + 2))

end Demangle

end NgLog
