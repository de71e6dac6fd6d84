import NgLog.Support.Bytes

/-!
# Regular expressions without groups

A fragment of the regular expressions of ECMAScript over bytes: the two anchors, characters, escaped
characters and ranges, each of them once, a fixed number of times, or at least once. What is not in
the fragment is not compiled.

A pattern is read in two passes. The first one makes tokens of the bytes, the second one gives each
quantifier the atom before it.

## Main definitions

* `Term`, `matchFrom` — a compiled pattern, and whether a text matches it to its end
* `compile` — the pattern that a text stands for

## Main results

* `matchFrom_literal_append`, `matchFrom_times`, `matchFrom_plus` — what the terms match
* `lex_escaped`, `lex_ordinary`, `lex_start`, `lex_finish`, `lex_plus`, `lex_times`, `lex_range` —
  the first pass, and `group_literalTokens_append` the second one
-/

namespace NgLog

namespace Regex

/-- What matches one byte. -/
inductive Atom
  | character (byte : Byte)
  | range (first last : Byte)
  deriving DecidableEq

/-- The atom matches the byte. -/
def Atom.accepts : Atom → Byte → Bool
  | .character byte, c => c = byte
  | .range first last, c => first ≤ c && c ≤ last

/-- An anchor, or an atom with a quantifier. -/
inductive Term
  | start
  | finish
  | once (atom : Atom)
  | times (atom : Atom) (count : ℕ)
  | plus (atom : Atom)
  deriving DecidableEq

/-! ### Matching -/

/-- Whether the terms match a text to its end. The flag tells whether nothing precedes the text. -/
def matchFrom : List Term → Bool → List Byte → Bool
  | [], _, text => text.isEmpty
  | .start :: terms, atStart, text => atStart && matchFrom terms atStart text
  | .finish :: terms, atStart, text => text.isEmpty && matchFrom terms atStart text
  | .once _ :: _, _, [] => false
  | .once atom :: terms, _, c :: text => atom.accepts c && matchFrom terms false text
  | .times atom count :: terms, atStart, text =>
    count ≤ text.length && (text.take count).all atom.accepts &&
      matchFrom terms (atStart && count = 0) (text.drop count)
  | .plus atom :: terms, _, text =>
    (List.range text.length).any fun more =>
      (text.take (more + 1)).all atom.accepts && matchFrom terms false (text.drop (more + 1))

/-- `std::regex_match`. -/
def regexMatch (pattern : List Term) (text : List Byte) : Bool := matchFrom pattern true text

/-- The terms of a text that stands for itself. -/
def literal (text : List Byte) : List Term := text.map fun c => .once (.character c)

section Matching

variable {atom : Atom} {terms : List Term} {atStart : Bool} {text : List Byte} {count : ℕ}

theorem matchFrom_literal_append (prefixed : List Byte) :
    matchFrom (literal prefixed ++ terms) atStart text = true ↔
      ∃ rest, text = prefixed ++ rest ∧
      matchFrom terms (atStart && prefixed.isEmpty) rest = true := by
  induction prefixed generalizing atStart text with
  | nil => simp [literal]
  | cons c prefixed ih =>
    rcases text with _ | ⟨d, text⟩
    · simp [literal, matchFrom]
    · have hcons : literal (c :: prefixed) ++ terms =
          .once (.character c) :: (literal prefixed ++ terms) := rfl
      rw [hcons, matchFrom, Bool.and_eq_true, ih]
      simp only [Atom.accepts, decide_eq_true_eq, List.cons_append, List.cons.injEq,
        List.isEmpty_cons, Bool.and_false, Bool.false_and]
      constructor
      · rintro ⟨rfl, rest, rfl, hmatch⟩
        exact ⟨rest, ⟨rfl, rfl⟩, hmatch⟩
      · rintro ⟨rest, ⟨rfl, rfl⟩, hmatch⟩
        exact ⟨rfl, rest, rfl, hmatch⟩

theorem matchFrom_times :
    matchFrom (.times atom count :: terms) atStart text = true ↔
      ∃ repeated rest, text = repeated ++ rest ∧ repeated.length = count ∧
        (∀ c ∈ repeated, atom.accepts c = true) ∧
        matchFrom terms (atStart && count = 0) rest = true := by
  rw [matchFrom]
  simp only [Bool.and_eq_true, decide_eq_true_eq, List.all_eq_true]
  constructor
  · rintro ⟨⟨hcount, haccepts⟩, hmatch⟩
    exact ⟨text.take count, text.drop count, (List.take_append_drop ..).symm,
      List.length_take_of_le hcount, haccepts, hmatch⟩
  · rintro ⟨repeated, rest, rfl, rfl, haccepts, hmatch⟩
    rw [List.length_append, List.take_left, List.drop_left]
    exact ⟨⟨Nat.le_add_right _ _, haccepts⟩, hmatch⟩

theorem matchFrom_plus :
    matchFrom (.plus atom :: terms) atStart text = true ↔
      ∃ repeated rest, text = repeated ++ rest ∧ repeated ≠ [] ∧
        (∀ c ∈ repeated, atom.accepts c = true) ∧ matchFrom terms false rest = true := by
  rw [matchFrom]
  simp only [List.any_eq_true, List.mem_range, Bool.and_eq_true, List.all_eq_true]
  constructor
  · rintro ⟨more, hmore, haccepts, hmatch⟩
    refine ⟨text.take (more + 1), text.drop (more + 1), (List.take_append_drop ..).symm, ?_,
      haccepts, hmatch⟩
    have hlength := List.length_take_of_le (Nat.succ_le_of_lt hmore)
    exact List.ne_nil_of_length_eq_add_one hlength
  · rintro ⟨repeated, rest, rfl, hne, haccepts, hmatch⟩
    have hpos := List.length_pos_iff.mpr hne
    refine ⟨repeated.length - 1, ?_, ?_⟩
    · rw [List.length_append]
      omega
    · rw [Nat.sub_add_cancel hpos, List.take_left, List.drop_left]
      exact ⟨haccepts, hmatch⟩

theorem matchFrom_finish : matchFrom [.finish] atStart text = true ↔ text = [] := by
  simp [matchFrom]

end Matching

/-! ### Compiling -/

/-- An anchor, an atom or a quantifier. -/
inductive Token
  | start
  | finish
  | atom (atom : Atom)
  | times (count : ℕ)
  | plus

/-- Whether the lexer is inside of braces, and the number that it has read there. -/
inductive LexState
  | outside
  | count (number : Option ℕ)

def isDigit (c : Byte) : Bool := '0'.toUInt8 ≤ c && c ≤ '9'.toUInt8

/-- Letters and digits, which are no identity escapes. -/
def isWordByte (c : Byte) : Bool :=
  isDigit c || ('a'.toUInt8 ≤ c && c ≤ 'z'.toUInt8) || ('A'.toUInt8 ≤ c && c ≤ 'Z'.toUInt8) ||
    c = '_'.toUInt8

/-- The bytes that do not stand for themselves. -/
def syntaxBytes : List Byte := bytes "\\.^$|()[]\x7b\x7d*+?"

/-- The first pass. -/
def lex : LexState → List Byte → Option (List Token)
  | .outside, [] => some []
  | .count _, [] => none
  | .count number, c :: rest =>
    if isDigit c then lex (.count (some (10 * number.getD 0 + (c - '0'.toUInt8).toNat))) rest
    else if c = '\x7d'.toUInt8 then
      match number with
      | none => none
      | some count => (lex .outside rest).map (.times count :: ·)
    else none
  | .outside, c :: rest =>
    if c = '\\'.toUInt8 then
      match rest with
      | [] => none
      | escaped :: rest =>
        if isWordByte escaped then none
        else (lex .outside rest).map (.atom (.character escaped) :: ·)
    else if c = '^'.toUInt8 then (lex .outside rest).map (.start :: ·)
    else if c = '$'.toUInt8 then (lex .outside rest).map (.finish :: ·)
    else if c = '+'.toUInt8 then (lex .outside rest).map (.plus :: ·)
    else if c = '\x7b'.toUInt8 then lex (.count none) rest
    else if c = '['.toUInt8 then
      match rest with
      | first :: hyphen :: last :: bracket :: rest =>
        if isWordByte first ∧ hyphen = '-'.toUInt8 ∧ isWordByte last ∧ bracket = ']'.toUInt8 then
          (lex .outside rest).map (.atom (.range first last) :: ·)
        else none
      | _ => none
    else if c ∈ syntaxBytes then none
    else (lex .outside rest).map (.atom (.character c) :: ·)

/-- The second pass. -/
def group : List Token → Option (List Term)
  | [] => some []
  | .start :: tokens => (group tokens).map (.start :: ·)
  | .finish :: tokens => (group tokens).map (.finish :: ·)
  | .atom a :: .times count :: tokens => (group tokens).map (.times a count :: ·)
  | .atom a :: .plus :: tokens => (group tokens).map (.plus a :: ·)
  | .atom a :: tokens => (group tokens).map (.once a :: ·)
  | .times _ :: _ => none
  | .plus :: _ => none

/-- The constructor of `std::regex`; `none` if the pattern is not in the fragment. -/
def compile (pattern : List Byte) : Option (List Term) := (lex .outside pattern).bind group

/-! ### Escaped texts -/

/-- The tokens of a text that stands for itself. -/
def literalTokens (text : List Byte) : List Token := text.map fun c => .atom (.character c)

theorem not_isWordByte_of_mem_syntaxBytes {c : Byte} (h : c ∈ syntaxBytes) :
    isWordByte c = false := by
  have hall : syntaxBytes.all (fun c => !isWordByte c) = true := by decide
  simpa using List.all_eq_true.mp hall c h

theorem lex_escaped {c : Byte} (h : isWordByte c = false) (rest : List Byte) :
    lex .outside ('\\'.toUInt8 :: c :: rest) =
      (lex .outside rest).map (.atom (.character c) :: ·) := by
  rw [lex.eq_def]
  simp only [if_pos, h]
  rfl

theorem lex_start (rest : List Byte) :
    lex .outside ('^'.toUInt8 :: rest) = (lex .outside rest).map (.start :: ·) := by
  rw [lex.eq_def]
  dsimp only
  rw [if_neg (by decide), if_pos rfl]

theorem lex_finish (rest : List Byte) :
    lex .outside ('$'.toUInt8 :: rest) = (lex .outside rest).map (.finish :: ·) := by
  rw [lex.eq_def]
  dsimp only
  rw [if_neg (by decide), if_neg (by decide), if_pos rfl]

theorem lex_plus (rest : List Byte) :
    lex .outside ('+'.toUInt8 :: rest) = (lex .outside rest).map (.plus :: ·) := by
  rw [lex.eq_def]
  dsimp only
  rw [if_neg (by decide), if_neg (by decide), if_neg (by decide), if_pos rfl]

/-- A number of one digit. -/
theorem lex_times {number : Byte} (h : isDigit number = true) (rest : List Byte) :
    lex .outside ('\x7b'.toUInt8 :: number :: '\x7d'.toUInt8 :: rest) =
      (lex .outside rest).map (.times (number - '0'.toUInt8).toNat :: ·) := by
  rw [lex.eq_def]
  dsimp only
  rw [if_neg (by decide), if_neg (by decide), if_neg (by decide), if_neg (by decide), if_pos rfl,
    lex, if_pos h, lex, if_neg (by decide), if_pos rfl, Option.getD_none, Nat.mul_zero,
    Nat.zero_add]

theorem lex_range {first last : Byte} (hfirst : isWordByte first = true)
    (hlast : isWordByte last = true) (rest : List Byte) :
    lex .outside ('['.toUInt8 :: first :: '-'.toUInt8 :: last :: ']'.toUInt8 :: rest) =
      (lex .outside rest).map (.atom (.range first last) :: ·) := by
  rw [lex.eq_def]
  dsimp only
  rw [if_neg (by decide), if_neg (by decide), if_neg (by decide), if_neg (by decide),
    if_neg (by decide), if_pos rfl, if_pos ⟨hfirst, rfl, hlast, rfl⟩]

theorem lex_ordinary {c : Byte} (h : c ∉ syntaxBytes) (rest : List Byte) :
    lex .outside (c :: rest) = (lex .outside rest).map (.atom (.character c) :: ·) := by
  have hne : ∀ d ∈ syntaxBytes, c ≠ d := fun d hd heq => h (heq ▸ hd)
  rw [lex.eq_def]
  dsimp only
  rw [if_neg (hne _ (by decide)), if_neg (hne _ (by decide)), if_neg (hne _ (by decide)),
    if_neg (hne _ (by decide)), if_neg (hne _ (by decide)), if_neg (hne _ (by decide)), if_neg h]

/-- Atoms that no quantifier follows. -/
theorem group_literalTokens_append (text : List Byte) {tokens : List Token}
    (h : ∀ count rest, tokens ≠ .times count :: rest ∧ tokens ≠ .plus :: rest) :
    group (literalTokens text ++ tokens) = (group tokens).map (literal text ++ ·) := by
  induction text with
  | nil =>
    rw [literalTokens, literal, List.map_nil, List.nil_append]
    exact Option.map_id'.symm
  | cons c text ih =>
    have hcons : literalTokens (c :: text) ++ tokens =
        .atom (.character c) :: (literalTokens text ++ tokens) := rfl
    have hnext : ∀ count rest, literalTokens text ++ tokens ≠ .times count :: rest ∧
        literalTokens text ++ tokens ≠ .plus :: rest := by
      intro count rest
      rcases text with _ | ⟨d, text⟩
      · exact h count rest
      · constructor <;> exact fun heq => by cases (List.cons.inj heq).1
    rw [hcons, group]
    · rw [ih, Option.map_map]
      rfl
    · exact fun count rest heq => (hnext count rest).1 heq
    · exact fun rest heq => (hnext 0 rest).2 heq

end Regex

end NgLog
