import Mathlib.Algebra.Group.Nat.Defs
import NgLog.Support.Bytes
import NgLog.Support.Spans

/-!
# The style recorder

`StyleRecorder` keeps, for a log message under construction, the spans of text that have been
streamed under a style, the stack of styles that are open, and a copy of the hyperlink targets of
both in an array of its own. It records offsets into the text, not the text. When one of its arrays
is full it disables itself until the next `Reset`.

`std::size_t` arithmetic is modulo `2 ^ 64`. `step` returns nothing where the source would write
past the end of `uri_storage_`.

## Ghost state

`uris` lists the targets copied since `uri_size_` was last zero, with their offsets, newest first.

## Main definitions

* `Recorder`, `storeAttributes`, `addSpan`, `push`, `pop`, `close` — the class and its functions
* `Call`, `step` — a call of one of them
-/

namespace NgLog

namespace Style

/-! ### The class -/

/-- One more than the largest `std::size_t`. -/
def sizeModulus : ℕ := 2 ^ 64

/-- Subtraction of `std::size_t`. -/
def sizeSub (a b : ℕ) : ℕ := (a + sizeModulus - b) % sizeModulus

/-- A hyperlink target: a string that `std::strlen` can measure. -/
structure Uri where
  text : CString
  length_lt : text.length < sizeModulus

/-- `TextAttributes`: a color, and the target of a hyperlink or a null pointer. -/
structure TextAttributes (Color : Type) where
  color : Color
  hyperlink : Option Uri

/-- `TextAttributes` whose hyperlink points into `uri_storage_`, as an offset. -/
structure StoredAttributes (Color : Type) where
  color : Color
  hyperlink : Option ℕ

/-- `ActiveStyle`. -/
structure ActiveStyle (Color : Type) where
  start : ℕ
  attributes : StoredAttributes Color

def kMaxSpans : ℕ := 256

def kMaxUriBytes : ℕ := 8192

/-- `StyleRecorder`. -/
structure Recorder (Color : Type) where
  /-- `spans_[0 .. span_count_)`. -/
  spans : List (Span (StoredAttributes Color))
  /-- `active_[0 .. active_count_)`, the innermost style first. -/
  active : List (ActiveStyle Color)
  /-- Only the indices below `kMaxUriBytes` are in the array. -/
  uriStorage : ℕ → Byte
  uriSize : ℕ
  disabled : Bool
  /-- Ghost: the targets in the storage, newest first. -/
  uris : List (ℕ × CString)

variable {Color : Type}

/-- `std::memcpy(uri_storage_ + offset, text, text.length)`. -/
def copyTo (storage : ℕ → Byte) (offset : ℕ) (text : List Byte) : ℕ → Byte := fun i =>
  if offset ≤ i ∧ i < offset + text.length then text.getD (i - offset) 0 else storage i

namespace Recorder

/-- A recorder as constructed, over storage that is not initialised. -/
def init (storage : ℕ → Byte) : Recorder Color :=
  { spans := []
    active := []
    uriStorage := storage
    uriSize := 0
    disabled := false
    uris := [] }

/-- `Reset`. -/
def reset (r : Recorder Color) : Recorder Color := init r.uriStorage

/-- `Disable`. -/
def disable (r : Recorder Color) : Recorder Color := { init r.uriStorage with disabled := true }

/-- `StoreAttributes`: nothing if it writes outside `uri_storage_`; otherwise the stored attributes,
or nothing where it returns false, and the recorder. -/
def storeAttributes (r : Recorder Color) (attributes : TextAttributes Color) :
    Option (Option (StoredAttributes Color) × Recorder Color) :=
  match attributes.hyperlink with
  | none => some (some ⟨attributes.color, none⟩, r)
  | some uri =>
    let uriLength := uri.text.length
    let kNullTerminatorLength := 1
    if uriLength > sizeSub (sizeSub kMaxUriBytes r.uriSize) kNullTerminatorLength then
      some (none, r)
    else if r.uriSize + uriLength + kNullTerminatorLength ≤ kMaxUriBytes then
      some (some ⟨attributes.color, some r.uriSize⟩,
        { r with
          uriStorage := copyTo r.uriStorage r.uriSize uri.text.array
          uriSize := r.uriSize + uriLength + kNullTerminatorLength
          uris := (r.uriSize, uri.text) :: r.uris })
    else none

/-- `AddSpan`, or nothing where it returns false. -/
def addSpan (r : Recorder Color) (start stop : ℕ) (attributes : StoredAttributes Color) :
    Option (Recorder Color) :=
  if stop ≤ start then some r
  else if r.spans.length ≥ kMaxSpans then none
  else some { r with spans := r.spans ++ [⟨start, stop, attributes⟩] }

/-- The start of `Push`: the span of the current style ends and the style goes on from `offset`. -/
def suspend (r : Recorder Color) (offset : ℕ) : Option (Recorder Color) :=
  match r.active with
  | [] => some r
  | current :: outer => do
    let r ← r.addSpan current.start offset current.attributes
    return { r with active := { current with start := offset } :: outer }

/-- `Push`. -/
def push (r : Recorder Color) (offset : ℕ) (attributes : TextAttributes Color) :
    Option (Recorder Color) :=
  if r.disabled then some r
  else if r.active.length ≥ kMaxSpans then some r.disable
  else
    match r.suspend offset with
    | none => some r.disable
    | some r =>
      match r.storeAttributes attributes with
      | none => none
      | some (none, r) => some r.disable
      | some (some stored, r) => some { r with active := ⟨offset, stored⟩ :: r.active }

/-- The outer style goes on from `offset`. -/
def resume (offset : ℕ) : List (ActiveStyle Color) → List (ActiveStyle Color)
  | [] => []
  | current :: outer => { current with start := offset } :: outer

/-- `Pop`. -/
def pop (r : Recorder Color) (offset : ℕ) : Recorder Color :=
  if r.disabled then r
  else
    match r.active with
    | [] => r
    | current :: outer =>
      match r.addSpan current.start offset current.attributes with
      | none => r.disable
      | some r => { r with active := resume offset outer }

/-- The loop of `Close`, for the styles that are still open. -/
def closeLoop (offset : ℕ) : List (ActiveStyle Color) → Recorder Color → Recorder Color
  | [], r => r
  | current :: outer, r =>
    match r.addSpan current.start offset current.attributes with
    | none => r.disable
    | some r => closeLoop offset outer { r with active := outer }

/-- `Close`. -/
def close (r : Recorder Color) (offset : ℕ) : Recorder Color :=
  if r.disabled then r else closeLoop offset r.active r

end Recorder

/-- The calls of the class. -/
inductive Call (Color : Type)
  | reset
  | push (offset : ℕ) (attributes : TextAttributes Color)
  | pop (offset : ℕ)
  | close (offset : ℕ)

/-- One call; nothing if it writes outside `uri_storage_`. -/
def step (r : Recorder Color) : Call Color → Option (Recorder Color)
  | .reset => some r.reset
  | .push offset attributes => r.push offset attributes
  | .pop offset => some (r.pop offset)
  | .close offset => some (r.close offset)

end Style

end NgLog
