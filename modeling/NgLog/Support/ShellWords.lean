import NgLog.Support.Bytes

/-!
# The words of a shell command

How a POSIX shell reads the characters of a command. An unquoted blank ends a word, an unquoted
operator character ends it too, and `#` where no word has begun starts a comment. A backslash quotes
the next character, single quotes quote everything up to the next one, and double quotes everything
but a parameter or command expansion, where a backslash still quotes `$`, the backquote, the double
quote and itself. A backslash and a newline are removed.

A word keeps for each character whether it was quoted, for tilde and pathname expansion work on the
others. A parameter or command expansion is not followed: such a command has no tokens here, and
neither has one that ends between quotes.

## Main definitions

* `Word`, `Token` — the tokens, with `Word.removeQuotes` for the text of a word
* `tokens` — the tokens of a command
* `Word.Inert` — tilde and pathname expansion leave the word alone
* `Contributes` — a piece of a command that adds characters to the current word

## Main results

* `contributes_plain`, `contributes_single`, `contributes_double` — the three ways of quoting
-/

namespace NgLog

namespace Shell

/-- A character, and whether it is quoted. -/
structure Letter where
  char : Byte
  quoted : Bool
  deriving DecidableEq

/-- A word whose quotes have been read. -/
abbrev Word : Type := List Letter

/-- The text of a word after quote removal. -/
def Word.removeQuotes (word : Word) : List Byte := word.map Letter.char

/-- A word, or a character of an operator. -/
inductive Token
  | word (letters : Word)
  | operator (char : Byte)
  deriving DecidableEq

def singleQuote : Byte := 39
def doubleQuote : Byte := 34
def backslash : Byte := 92
def newline : Byte := 10
def dollar : Byte := 36
def backquote : Byte := 96
def hash : Byte := 35

/-- The characters that separate words. -/
def isBlank (c : Byte) : Bool := c = 32 ∨ c = 9

/-- The characters that start a parameter, command or arithmetic expansion. -/
def startsExpansion (c : Byte) : Bool := c = dollar ∨ c = backquote

/-- `|&;<>()` and the newline. -/
def isOperator (c : Byte) : Bool := c ∈ bytes "|&;<>()" ∨ c = newline

/-- The characters that a backslash quotes between double quotes. -/
def escapable (c : Byte) : Bool := startsExpansion c ∨ c = doubleQuote ∨ c = backslash

/-- What the next character is to be read as. -/
inductive Mode
  | bare
  | single
  | double
  /-- Behind a backslash. -/
  | escaped
  /-- Behind a backslash between double quotes. -/
  | doubleEscaped
  | comment
  deriving DecidableEq

/-- The word so far and a further letter. -/
def extend (word : Option Word) (letters : Word) : Option Word := some (word.getD [] ++ letters)

/-- The token of the word that has been begun. -/
def finish (word : Option Word) : List Token := word.toList.map Token.word

/-- The tokens of the rest of a command. -/
def lex : Mode → Option Word → List Byte → Option (List Token)
  | .bare, word, [] | .comment, word, [] => some (finish word)
  | _, _, [] => none
  | .bare, word, c :: rest =>
    if c = singleQuote then lex .single (extend word []) rest
    else if c = doubleQuote then lex .double (extend word []) rest
    else if c = backslash then lex .escaped word rest
    else if startsExpansion c then none
    else if isOperator c then
      (lex .bare none rest).map fun tokens => finish word ++ .operator c :: tokens
    else if isBlank c then (lex .bare none rest).map fun tokens => finish word ++ tokens
    else if c = hash ∧ word = none then lex .comment none rest
    else lex .bare (extend word [⟨c, false⟩]) rest
  | .single, word, c :: rest =>
    if c = singleQuote then lex .bare word rest
    else lex .single (extend word [⟨c, true⟩]) rest
  | .double, word, c :: rest =>
    if c = doubleQuote then lex .bare word rest
    else if c = backslash then lex .doubleEscaped word rest
    else if startsExpansion c then none
    else lex .double (extend word [⟨c, true⟩]) rest
  | .escaped, word, c :: rest =>
    if c = newline then lex .bare word rest
    else lex .bare (extend word [⟨c, true⟩]) rest
  | .doubleEscaped, word, c :: rest =>
    if c = newline then lex .double word rest
    else if escapable c then lex .double (extend word [⟨c, true⟩]) rest
    else lex .double (extend word [⟨backslash, true⟩, ⟨c, true⟩]) rest
  | .comment, word, c :: rest =>
    if c = newline then
      (lex .bare none rest).map fun tokens => finish word ++ .operator c :: tokens
    else lex .comment word rest

/-- The tokens of a command, if it ends outside of quotes and has no parameter or command
expansion. -/
def tokens (command : List Byte) : Option (List Token) := lex .bare none command

/-- No character is open to tilde or pathname expansion. -/
def Word.Inert (word : Word) : Prop :=
  ∀ letter ∈ word, letter.quoted = false → letter.char ∉ bytes "~*?["

/-! ### Pieces of a command -/

variable {word : Option Word} {c : Byte} {rest text : List Byte}

@[simp] theorem extend_extend (word : Option Word) (letters letters' : Word) :
    extend (extend word letters) letters' = extend word (letters ++ letters') := by
  simp [extend, List.append_assoc]

/-- The piece adds these letters to the current word. -/
def Contributes (piece : List Byte) (letters : Word) : Prop :=
  ∀ word rest, lex .bare word (piece ++ rest) = lex .bare (extend word letters) rest

theorem Contributes.append {piece piece' : List Byte} {letters letters' : Word}
    (h : Contributes piece letters) (h' : Contributes piece' letters') :
    Contributes (piece ++ piece') (letters ++ letters') := by
  intro word rest
  rw [List.append_assoc, h, h', extend_extend]

/-- A character that means nothing to the shell. -/
def isPlain (c : Byte) : Bool :=
  c ≠ singleQuote ∧ c ≠ doubleQuote ∧ c ≠ backslash ∧ !startsExpansion c ∧ !isOperator c ∧
    !isBlank c ∧ c ≠ hash

theorem lex_plain (h : isPlain c = true) :
    lex .bare word (c :: rest) = lex .bare (extend word [⟨c, false⟩]) rest := by
  simp only [isPlain, decide_eq_true_eq, Bool.not_eq_true'] at h
  obtain ⟨hsingle, hdouble, hbackslash, hexpansion, hoperator, hblank, hhash⟩ := h
  rw [lex, if_neg hsingle, if_neg hdouble, if_neg hbackslash, if_neg (by simp [hexpansion]),
    if_neg (by simp [hoperator]), if_neg (by simp [hblank]), if_neg fun h => hhash h.1]

/-- Characters of no meaning stand for themselves. -/
theorem contributes_plain (hne : text ≠ []) (h : text.all isPlain = true) :
    Contributes text (text.map (⟨·, false⟩)) := by
  induction text with
  | nil => exact absurd rfl hne
  | cons c text ih =>
    rw [List.all_cons, Bool.and_eq_true] at h
    intro word rest
    rw [List.cons_append, lex_plain h.1]
    by_cases htext : text = []
    · subst htext
      rfl
    · rw [ih htext h.2, extend_extend]
      rfl

theorem lex_single (hquote : singleQuote ∉ text) (word : Option Word) (rest : List Byte) :
    lex .single word (text ++ singleQuote :: rest) =
      lex .bare (if text = [] then word else extend word (text.map (⟨·, true⟩))) rest := by
  induction text generalizing word with
  | nil => rw [List.nil_append, lex, if_pos rfl, if_pos rfl]
  | cons c text ih =>
    obtain ⟨hc, htext⟩ := not_or.mp (List.mem_cons.not.mp hquote)
    rw [List.cons_append, lex, if_neg (Ne.symm hc), ih htext, if_neg (List.cons_ne_nil c text)]
    split
    · rename_i hnil
      rw [hnil]
      rfl
    · rw [extend_extend]
      rfl

/-- Single quotes around a text without any. -/
theorem contributes_single (hquote : singleQuote ∉ text) :
    Contributes (singleQuote :: text ++ [singleQuote]) (text.map (⟨·, true⟩)) := by
  intro word rest
  rw [List.cons_append, List.cons_append, List.append_assoc, List.singleton_append, lex, if_pos rfl,
    lex_single hquote]
  split
  · rename_i hnil
    rw [hnil]
    rfl
  · rw [extend_extend, List.nil_append]

/-- A text between double quotes, with a backslash before each character that needs one. -/
def escapeDouble (text : List Byte) : List Byte :=
  text.flatMap fun c => if escapable c then [backslash, c] else [c]

theorem lex_escapeDouble (letters : Word) (word : Option Word) (rest : List Byte) :
    lex .double (extend word letters) (escapeDouble text ++ doubleQuote :: rest) =
      lex .bare (extend word (letters ++ text.map (⟨·, true⟩))) rest := by
  induction text generalizing letters with
  | nil => rw [escapeDouble, List.flatMap_nil, List.nil_append, lex, if_pos rfl, List.map_nil,
      List.append_nil]
  | cons c text ih =>
    rw [escapeDouble, List.flatMap_cons, ← escapeDouble, List.append_assoc]
    have hnext := ih (letters ++ [⟨c, true⟩])
    rw [List.append_assoc, List.singleton_append] at hnext
    by_cases hescape : escapable c = true
    · have hnewline : c ≠ newline := by
        rintro rfl
        exact absurd hescape (by decide)
      rw [if_pos hescape, List.cons_append, List.singleton_append, lex, if_neg (by decide),
        if_pos rfl, lex, if_neg hnewline, if_pos hescape, extend_extend, hnext, List.map_cons]
    · have hplain : ¬startsExpansion c = true ∧ c ≠ doubleQuote ∧ c ≠ backslash := by
        rw [escapable, decide_eq_true_eq, not_or, not_or] at hescape
        exact hescape
      rw [if_neg hescape, List.singleton_append, lex, if_neg hplain.2.1, if_neg hplain.2.2,
        if_neg hplain.1, extend_extend, hnext, List.map_cons]

/-- Double quotes around an escaped text. -/
theorem contributes_double (text : List Byte) :
    Contributes (doubleQuote :: escapeDouble text ++ [doubleQuote]) (text.map (⟨·, true⟩)) := by
  intro word rest
  rw [List.cons_append, List.cons_append, List.append_assoc, List.singleton_append, lex,
    if_neg (by decide), if_pos rfl, lex_escapeDouble, List.nil_append]

/-- A blank ends the word. -/
theorem lex_blank (h : isBlank c = true) :
    lex .bare word (c :: rest) = (tokens rest).map fun tokens => finish word ++ tokens := by
  have hc : c = 32 ∨ c = 9 := of_decide_eq_true h
  rcases hc with rfl | rfl
  · rfl
  · rfl

theorem inert_quoted (text : List Byte) : Word.Inert (text.map (⟨·, true⟩)) := by
  intro letter hletter hquoted
  obtain ⟨c, -, rfl⟩ := List.mem_map.mp hletter
  cases hquoted

theorem removeQuotes_map (text : List Byte) (quoted : Bool) :
    Word.removeQuotes (text.map (⟨·, quoted⟩)) = text := by
  rw [Word.removeQuotes, List.map_map]
  exact List.map_id text

end Shell

end NgLog
