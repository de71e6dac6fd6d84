import NgLog.Support.Numerals

/-!
# What a terminal shows

A terminal reads bytes one after another. Control sequences select how what follows is shown: with
`m` as the final byte they set the style and the colors, and operating system commands with the
number 8 begin and end hyperlinks. All other bytes are shown with the pen that is selected.

## Main definitions

* `Shade`, `Pen` — the colors, and how a byte is shown
* `Terminal`, `Terminal.step`, `Terminal.feed` — the terminal
* `select` — what a control sequence selects
* `idle` — a terminal that is in no sequence

## Main results

* `feed_text` — bytes without an escape character are shown
* `feed_select` — a control sequence selects what its numbers say
* `feed_link` — a hyperlink begins or ends
-/

namespace NgLog

/-- A color: the one of the terminal, one of its palette, or one by its components. -/
inductive Shade
  | default
  | palette (index : ℕ)
  | rgb (red green blue : ℕ)
  deriving DecidableEq

/-- How a byte is shown. Without a hyperlink the link is empty. -/
structure Pen where
  bold : Bool
  dim : Bool
  italic : Bool
  underline : Bool
  foreground : Shade
  background : Shade
  link : List Byte
  deriving DecidableEq

/-- Nothing is selected. -/
def Pen.plain : Pen := ⟨false, false, false, false, .default, .default, []⟩

/-- What a control sequence with these numbers and the final byte `m` selects. -/
def select : List ℕ → Pen → Pen
  | 38 :: 2 :: red :: green :: blue :: codes, pen =>
    select codes { pen with foreground := .rgb red green blue }
  | 48 :: 2 :: red :: green :: blue :: codes, pen =>
    select codes { pen with background := .rgb red green blue }
  | code :: codes, pen =>
    select codes <|
      if code = 0 then { Pen.plain with link := pen.link }
      else if code = 1 then { pen with bold := true }
      else if code = 2 then { pen with dim := true }
      else if code = 3 then { pen with italic := true }
      else if code = 4 then { pen with underline := true }
      else if code = 39 then { pen with foreground := .default }
      else if code = 49 then { pen with background := .default }
      else if 30 ≤ code ∧ code < 38 then { pen with foreground := .palette (code - 30) }
      else if 90 ≤ code ∧ code < 98 then { pen with foreground := .palette (code - 90 + 8) }
      else if 40 ≤ code ∧ code < 48 then { pen with background := .palette (code - 40) }
      else if 100 ≤ code ∧ code < 108 then { pen with background := .palette (code - 100 + 8) }
      else pen
  | [], pen => pen

namespace Terminal

def escape : Byte := 0x1b
def bracket : Byte := 0x5b
def commandBracket : Byte := 0x5d
def semicolon : Byte := 0x3b
def final : Byte := 0x6d
def backslash : Byte := 0x5c

/-- Where in a sequence the terminal is: in none, behind an escape character, in a control sequence
with some numbers and a current one, in a command, or behind an escape character in it. -/
inductive Mode
  | ground
  | escaped
  | control (codes : List ℕ) (current : ℕ)
  | command (text : List Byte)
  | commandEscaped (text : List Byte)

end Terminal

open Terminal in
/-- A terminal, and what it has shown. -/
structure Terminal where
  mode : Mode
  pen : Pen
  shown : List (Byte × Pen)

namespace Terminal

open Numeral (numeral digit isDigit)

/-- A command that has been read: `8;parameters;uri` begins a hyperlink, or ends one. -/
def runCommand (text : List Byte) (pen : Pen) : Pen :=
  match text with
  | 0x38 :: 0x3b :: rest => { pen with link := (rest.dropWhile (· ≠ semicolon)).drop 1 }
  | _ => pen

/-- What a terminal does with a byte. -/
def step (t : Terminal) (c : Byte) : Terminal :=
  match t.mode with
  | .ground =>
    if c = escape then { t with mode := .escaped } else { t with shown := t.shown ++ [(c, t.pen)] }
  | .escaped =>
    if c = bracket then { t with mode := .control [] 0 }
    else if c = commandBracket then { t with mode := .command [] }
    else { t with mode := .ground }
  | .control codes current =>
    if isDigit 10 c then { t with mode := .control codes (current * 10 + digit c) }
    else if c = semicolon then { t with mode := .control (codes ++ [current]) 0 }
    else if c = final then { t with mode := .ground, pen := select (codes ++ [current]) t.pen }
    else { t with mode := .ground }
  | .command text =>
    if c = escape then { t with mode := .commandEscaped text }
    else { t with mode := .command (text ++ [c]) }
  | .commandEscaped text =>
    if c = backslash then { t with mode := .ground, pen := runCommand text t.pen }
    else { t with mode := .ground }

/-- What a terminal does with some bytes. -/
def feed (t : Terminal) (text : List Byte) : Terminal := text.foldl step t

/-- A terminal that is in no sequence. -/
def idle (pen : Pen) (shown : List (Byte × Pen)) : Terminal := ⟨.ground, pen, shown⟩

/-- What is shown of some bytes on a new terminal. -/
def display (text : List Byte) : List (Byte × Pen) := (feed (idle .plain []) text).shown

variable {t : Terminal} {pen : Pen} {shown : List (Byte × Pen)}

theorem feed_append (text text' : List Byte) (t : Terminal) :
    t.feed (text ++ text') = (t.feed text).feed text' :=
  List.foldl_append ..

theorem feed_cons (c : Byte) (text : List Byte) (t : Terminal) :
    t.feed (c :: text) = (t.step c).feed text := rfl

theorem feed_nil (t : Terminal) : t.feed [] = t := rfl

/-- Bytes without an escape character are shown. -/
theorem feed_text {text : List Byte} (h : escape ∉ text) (pen : Pen) (shown : List (Byte × Pen)) :
    feed (idle pen shown) text = idle pen (shown ++ text.map fun c => (c, pen)) := by
  induction text generalizing shown with
  | nil => rw [List.map_nil, List.append_nil, feed_nil]
  | cons c text ih =>
    obtain ⟨hc, htext⟩ := List.ne_and_not_mem_of_not_mem_cons h
    have hstep : step (idle pen shown) c = idle pen (shown ++ [(c, pen)]) := if_neg (Ne.symm hc)
    rw [feed_cons, hstep, ih htext, List.append_assoc]
    rfl

/-! ### Control sequences -/

/-- The numbers of a control sequence, with semicolons between them. -/
def joinCodes : List ℕ → List Byte
  | [] => []
  | [code] => numeral 10 code
  | code :: codes => numeral 10 code ++ semicolon :: joinCodes codes

theorem joinCodes_cons {codes : List ℕ} (h : codes ≠ []) (code : ℕ) :
    joinCodes (code :: codes) = numeral 10 code ++ semicolon :: joinCodes codes := by
  cases codes with
  | nil => exact absurd rfl h
  | cons next codes => rfl

theorem joinCodes_concat {codes : List ℕ} (h : codes ≠ []) (code : ℕ) :
    joinCodes (codes ++ [code]) = joinCodes codes ++ semicolon :: numeral 10 code := by
  induction codes with
  | nil => exact absurd rfl h
  | cons first codes ih =>
    cases codes with
    | nil => rfl
    | cons next codes =>
      rw [List.cons_append, joinCodes_cons (List.concat_ne_nil _ _), ih (List.cons_ne_nil _ _),
        joinCodes_cons (List.cons_ne_nil _ _), List.append_assoc]
      rfl

/-- The control sequence that selects what these numbers say. -/
def selectSequence (codes : List ℕ) : List Byte := escape :: bracket :: joinCodes codes ++ [final]

/-- The digits of a number are read. -/
theorem feed_digits {text : List Byte} (h : ∀ c ∈ text, isDigit 10 c = true) (codes : List ℕ)
    (current : ℕ) :
    feed ⟨.control codes current, pen, shown⟩ text =
      ⟨.control codes (text.foldl (fun n c => n * 10 + digit c) current), pen, shown⟩ := by
  induction text generalizing current with
  | nil => rfl
  | cons c text ih =>
    obtain ⟨hc, htext⟩ := List.forall_mem_cons.mp h
    have hstep : step ⟨.control codes current, pen, shown⟩ c =
        ⟨.control codes (current * 10 + digit c), pen, shown⟩ := if_pos hc
    rw [feed_cons, hstep, ih htext]
    rfl

theorem feed_numeral (codes : List ℕ) (code : ℕ) :
    feed ⟨.control codes 0, pen, shown⟩ (numeral 10 code) = ⟨.control codes code, pen, shown⟩ := by
  rw [feed_digits fun c => Numeral.isDigit_of_mem_numeral (by decide) (by decide) c]
  exact congrArg (fun n => (⟨.control codes n, pen, shown⟩ : Terminal))
    (Numeral.value_numeral (by decide) (by decide) code)

theorem feed_joinCodes {codes : List ℕ} (h : codes ≠ []) (before : List ℕ) :
    feed ⟨.control before 0, pen, shown⟩ (joinCodes codes ++ [final]) =
      idle (select (before ++ codes) pen) shown := by
  induction codes generalizing before with
  | nil => exact absurd rfl h
  | cons code codes ih =>
    cases codes with
    | nil => rw [joinCodes, feed_append, feed_numeral]; rfl
    | cons next codes =>
      have hsemicolon : step ⟨.control before code, pen, shown⟩ semicolon =
          ⟨.control (before ++ [code]) 0, pen, shown⟩ := rfl
      rw [joinCodes_cons (List.cons_ne_nil _ _), List.append_assoc, feed_append, feed_numeral,
        List.cons_append, feed_cons, hsemicolon, ih (List.cons_ne_nil _ _), List.append_assoc]
      rfl

/-- A control sequence selects what its numbers say. -/
theorem feed_select {codes : List ℕ} (h : codes ≠ []) (pen : Pen) (shown : List (Byte × Pen)) :
    feed (idle pen shown) (selectSequence codes) = idle (select codes pen) shown :=
  feed_joinCodes h []

/-! ### Hyperlinks -/

/-- The command that begins a hyperlink, or ends one if the address is empty. -/
def linkSequence (uri : List Byte) : List Byte :=
  escape :: commandBracket :: 0x38 :: semicolon :: semicolon :: uri ++ [escape, backslash]

theorem feed_command {text : List Byte} (h : escape ∉ text) (before : List Byte) :
    feed ⟨.command before, pen, shown⟩ text = ⟨.command (before ++ text), pen, shown⟩ := by
  induction text generalizing before with
  | nil => rw [List.append_nil, feed_nil]
  | cons c text ih =>
    obtain ⟨hc, htext⟩ := List.ne_and_not_mem_of_not_mem_cons h
    have hstep : step ⟨.command before, pen, shown⟩ c = ⟨.command (before ++ [c]), pen, shown⟩ :=
      if_neg (Ne.symm hc)
    rw [feed_cons, hstep, ih htext, List.append_assoc]
    rfl

/-- A hyperlink begins or ends. -/
theorem feed_link {uri : List Byte} (h : escape ∉ uri) (pen : Pen) (shown : List (Byte × Pen)) :
    feed (idle pen shown) (linkSequence uri) = idle { pen with link := uri } shown := by
  have hstart : feed (idle pen shown) [escape, commandBracket, 0x38, semicolon, semicolon] =
      ⟨.command [0x38, semicolon, semicolon], pen, shown⟩ := rfl
  have hsplit : linkSequence uri =
      [escape, commandBracket, 0x38, semicolon, semicolon] ++ (uri ++ [escape, backslash]) := rfl
  rw [hsplit, feed_append, hstart, feed_append, feed_command h]
  rfl

end Terminal

end NgLog
