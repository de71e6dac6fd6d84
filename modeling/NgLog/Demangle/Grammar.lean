import Mathlib.Algebra.Group.Int.Defs
import Mathlib.Algebra.Group.Nat.Defs
import NgLog.Demangle.State

/-!
# The grammar of `src/demangle.cc`

One definition per parse function of the source, under its name. The source saves its state before
an alternative and restores it when the alternative fails; `attempt` is that idiom, `optional`,
`oneOrMore` and `zeroOrMore` are the source's helpers, and `parseUntil` is its loop over a
terminator.

The parse functions that guard their depth are the ones through which the grammar recurses. The
source declares them ahead; here they are the fields of `Forward`, and `forwardAt fuel` supplies
them, each call at one less fuel. The depth guard stops the recursion at 64 nested calls, so a fuel
of 65 is never used up; that it is not is part of the safety theorem.

## Main definitions

* `Forward` — the recursive parse functions, as the source's forward declarations
* `parseMangledName` … `parseSubstitution` — the grammar
* `forwardAt`, `parseTopLevelMangledName`, `demangle` — the recursion and the entry point
-/

namespace NgLog

namespace Demangle

open Backtracking (Machine)

/-- The forward declared parse functions that count their depth. -/
class Forward (w : CString) where
  parseEncoding : Parser w Bool
  parseName : Parser w Bool
  parseNestedName : Parser w Bool
  parsePrefix : Parser w Bool
  parseType : Parser w Bool
  parseTemplateArg : Parser w Bool
  parseBracedExpression : Parser w Bool
  parseExpression : Parser w Bool
  parseLocalName : Parser w Bool

/-! ### Tables -/

/-- `enum class OperatorArity`. -/
inductive OperatorArity
  | unary | binary | ternary | other
  deriving DecidableEq, Repr

/-- `struct AbbrevPair`. -/
structure AbbrevPair where
  abbreviation : String
  realName : String

/-- `struct OperatorPair`. -/
structure OperatorPair where
  abbreviation : String
  realName : String
  arity : OperatorArity

/-- `kOperatorList`. -/
def kOperatorList : List OperatorPair :=
  [⟨"nw", "new", .unary⟩, ⟨"na", "new[]", .unary⟩, ⟨"dl", "delete", .unary⟩,
   ⟨"da", "delete[]", .unary⟩, ⟨"ps", "+", .unary⟩, ⟨"ng", "-", .unary⟩, ⟨"ad", "&", .unary⟩,
   ⟨"de", "*", .unary⟩, ⟨"co", "~", .unary⟩, ⟨"pl", "+", .binary⟩, ⟨"mi", "-", .binary⟩,
   ⟨"ml", "*", .binary⟩, ⟨"dv", "/", .binary⟩, ⟨"rm", "%", .binary⟩, ⟨"an", "&", .binary⟩,
   ⟨"or", "|", .binary⟩, ⟨"eo", "^", .binary⟩, ⟨"aS", "=", .binary⟩, ⟨"pL", "+=", .binary⟩,
   ⟨"mI", "-=", .binary⟩, ⟨"mL", "*=", .binary⟩, ⟨"dV", "/=", .binary⟩, ⟨"rM", "%=", .binary⟩,
   ⟨"aN", "&=", .binary⟩, ⟨"oR", "|=", .binary⟩, ⟨"eO", "^=", .binary⟩, ⟨"ls", "<<", .binary⟩,
   ⟨"rs", ">>", .binary⟩, ⟨"lS", "<<=", .binary⟩, ⟨"rS", ">>=", .binary⟩, ⟨"eq", "==", .binary⟩,
   ⟨"ne", "!=", .binary⟩, ⟨"lt", "<", .binary⟩, ⟨"gt", ">", .binary⟩, ⟨"le", "<=", .binary⟩,
   ⟨"ge", ">=", .binary⟩, ⟨"nt", "!", .unary⟩, ⟨"aa", "&&", .binary⟩, ⟨"oo", "||", .binary⟩,
   ⟨"pp", "++", .unary⟩, ⟨"mm", "--", .unary⟩, ⟨"cm", ",", .binary⟩, ⟨"pm", "->*", .binary⟩,
   ⟨"pt", "->", .binary⟩, ⟨"cl", "()", .binary⟩, ⟨"ix", "[]", .binary⟩, ⟨"qu", "?", .ternary⟩,
   ⟨"aw", "co_await", .unary⟩, ⟨"ss", "<=>", .binary⟩, ⟨"st", "sizeof", .unary⟩,
   ⟨"sz", "sizeof", .unary⟩]

/-- `kBuiltinTypeList`. -/
def kBuiltinTypeList : List AbbrevPair :=
  [⟨"v", "void"⟩, ⟨"w", "wchar_t"⟩, ⟨"b", "bool"⟩, ⟨"c", "char"⟩, ⟨"a", "signed char"⟩,
   ⟨"h", "unsigned char"⟩, ⟨"s", "short"⟩, ⟨"t", "unsigned short"⟩, ⟨"i", "int"⟩,
   ⟨"j", "unsigned int"⟩, ⟨"l", "long"⟩, ⟨"m", "unsigned long"⟩, ⟨"x", "long long"⟩,
   ⟨"y", "unsigned long long"⟩, ⟨"n", "__int128"⟩, ⟨"o", "unsigned __int128"⟩, ⟨"f", "float"⟩,
   ⟨"d", "double"⟩, ⟨"e", "long double"⟩, ⟨"g", "__float128"⟩, ⟨"z", "ellipsis"⟩, ⟨"Da", "auto"⟩,
   ⟨"Dc", "decltype(auto)"⟩, ⟨"Dd", "decimal64"⟩, ⟨"De", "decimal128"⟩, ⟨"Df", "decimal32"⟩,
   ⟨"Dh", "float16"⟩, ⟨"Di", "char32_t"⟩, ⟨"Ds", "char16_t"⟩, ⟨"Du", "char8_t"⟩,
   ⟨"Dn", "decltype(nullptr)"⟩]

/-- `kSubstitutionList`. -/
def kSubstitutionList : List AbbrevPair :=
  [⟨"St", ""⟩, ⟨"Sa", "allocator"⟩, ⟨"Sb", "basic_string"⟩, ⟨"Ss", "string"⟩, ⟨"Si", "istream"⟩,
   ⟨"So", "ostream"⟩, ⟨"Sd", "iostream"⟩]

/-! ### Numbers and identifiers -/

variable {w : CString}

/-- Whether a parse function with an output parameter returned true. -/
def succeeds {α : Type} (f : Parser w (Option α)) : Parser w Bool := do
  return (← f).isSome

/-- `static_cast<std::uint64_t>(std::numeric_limits<std::int64_t>::max())`. -/
def kMaxPositive : ℕ := 2 ^ 63 - 1

/-- The magnitude of the least `std::int64_t`. -/
def kMaxNegative : ℕ := kMaxPositive + 1

/-- `*p == '0' && IsDigit(p[1])`. -/
def superfluousZero : List Byte → Bool
  | c :: d :: _ => c == '0'.toUInt8 && isDigit d
  | _ => false

/-- The digit loop of `ParseNumber`: the number and how many digits it has, or nothing when the
number exceeds the limit. -/
def scanNumber (limit : ℕ) : List Byte → ℕ → ℕ → Option (ℕ × ℕ)
  | [], number, count => some (number, count)
  | c :: p, number, count =>
    if isDigit c then
      let digit := c.toNat - '0'.toNat
      if number > limit / 10 || (number == limit / 10 && digit > limit % 10) then none
      else scanNumber limit p (number * 10 + digit) (count + 1)
    else some (number, count)

/-- `ParseNumber`; `numberOut` says whether the caller passed an output parameter, and the result
is its value. -/
def parseNumber (numberOut : Bool) : Parser w (Option ℤ) := saving fun copy => do
  let negative ← parseOneCharToken 'n'
  saving fun state => do
    let p := rest w state
    if superfluousZero p then
      let _ ← modify fun _ => copy
      return none
    if !numberOut then
      let count := (p.takeWhile isDigit).length
      if count != 0 then
        let _ ← advance count
        return some 0
      let _ ← modify fun _ => copy
      return none
    match scanNumber (if negative then kMaxNegative else kMaxPositive) p 0 0 with
    | none =>
      let _ ← modify fun _ => copy
      return none
    | some (number, count) =>
      if count != 0 then  -- Conversion succeeded.
        let _ ← advance count
        return some (if negative then -(number : ℤ) else number)
      return none

/-- `ParseNonNegativeNumber`. -/
def parseNonNegativeNumber (numberOut : Bool) : Parser w (Option ℤ) := do
  if !numberOut then
    if (← peek 0) == 'n'.toUInt8 then return none
    parseNumber false
  else saving fun copy => do
    match ← parseNumber true with
    | some number =>
      if number ≥ 0 then return some number
      let _ ← modify fun _ => copy
      return none
    | none =>
      let _ ← modify fun _ => copy
      return none

/-- `ParsePositiveNumber`. -/
def parsePositiveNumber (numberOut : Bool) : Parser w (Option ℤ) := do
  if !numberOut then
    let c ← peek 0
    if c == '0'.toUInt8 || c == 'n'.toUInt8 then return none
    parseNumber false
  else saving fun copy => do
    match ← parseNonNegativeNumber true with
    | some number =>
      if number > 0 then return some number
      let _ ← modify fun _ => copy
      return none
    | none =>
      let _ ← modify fun _ => copy
      return none

/-- `ParseFloatNumber`: a run of lowercase hexadecimal digits. -/
def parseFloatNumber : Parser w Bool := saving fun state => do
  let count := ((rest w state).takeWhile fun c =>
    isDigit c || ('a'.toUInt8 ≤ c && c ≤ 'f'.toUInt8)).length
  if count != 0 then advance count else return false

/-- `<seq-id>`: a number in base 36, in digits and upper case letters. -/
def parseSeqId : Parser w Bool := saving fun state => do
  let count := ((rest w state).takeWhile fun c =>
    isDigit c || ('A'.toUInt8 ≤ c && c ≤ 'Z'.toUInt8)).length
  if count != 0 && !(count > 1 && (← peek 0) == '0'.toUInt8) then advance count else return false

/-- `IdentifierIsAnonymousNamespace`. -/
def identifierIsAnonymousNamespace (length : ℤ) : Parser w Bool := do
  return length > 11 && (← strPrefix "_GLOBAL__N_")

/-- `<identifier>` of the given length. -/
def parseIdentifier (length : ℤ) : Parser w Bool := do
  if length < 0 || !(← atLeastNumCharsRemaining length.toNat) then return false
  if ← identifierIsAnonymousNamespace length then
    let _ ← maybeAppend "(anonymous namespace)"
  else
    let _ ← saving fun state =>
      maybeAppendWithLength (.bytes ((rest w state).take length.toNat))
  advance length.toNat

/-- `std::numeric_limits<ssize_t>::max()`. -/
def ssizeMax : ℤ := 2 ^ 63 - 1

/-- `<source-name> ::= <positive length number> <identifier>`. -/
def parseSourceName : Parser w Bool := attempt do
  match ← parsePositiveNumber true with
  | some length => if length ≤ ssizeMax then parseIdentifier length else return false
  | none => return false

/-- `ParseNonNegativeNumber(state, &number)` and a condition on the number. -/
def parseNumberSuch (cond : ℤ → Bool) : Parser w Bool := do
  match ← parseNonNegativeNumber true with
  | some number => return cond number
  | none => return false

/-- `<discriminator>`: `_` and a number below 10, or `__`, a larger number and `_`. -/
def parseDiscriminator : Parser w Bool :=
  attempt (parseTwoCharToken "__" <&&> parseNumberSuch (fun number => number ≥ 10) <&&>
    parseOneCharToken '_') <||>
  attempt (parseOneCharToken '_' <&&> parseNumberSuch (fun number => number < 10))

/-- `<local-source-name> ::= L <source-name> [<discriminator>]`. -/
def parseLocalSourceName : Parser w Bool :=
  attempt (parseOneCharToken 'L' <&&> parseSourceName <&&> optional parseDiscriminator)

/-- `<abi-tag> ::= B <source-name>`. -/
def parseAbiTag : Parser w Bool := parseOneCharToken 'B' <&&> parseSourceName

/-- `<abi-tags> ::= <abi-tag> [<abi-tags>]`. -/
def parseAbiTags : Parser w Bool := attempt <| saving fun copy =>
  disableAppend <&&> oneOrMore parseAbiTag <&&> restoreAppend copy.append

/-- `<CV-qualifiers> ::= [r] [V] [K]`, not empty. -/
def parseCVQualifiers : Parser w Bool := do
  let r ← parseOneCharToken 'r'
  let v ← parseOneCharToken 'V'
  let k ← parseOneCharToken 'K'
  return r || v || k

/-- `<nv-offset> ::= <(offset) number>`. -/
def parseNVOffset : Parser w Bool := succeeds (parseNumber false)

/-- `<v-offset> ::= <(offset) number> _ <(virtual offset) number>`. -/
def parseVOffset : Parser w Bool :=
  attempt (succeeds (parseNumber false) <&&> parseOneCharToken '_' <&&>
    succeeds (parseNumber false))

/-- `<call-offset> ::= h <nv-offset> _ | v <v-offset> _`. -/
def parseCallOffset : Parser w Bool :=
  attempt (parseOneCharToken 'h' <&&> parseNVOffset <&&> parseOneCharToken '_') <||>
  attempt (parseOneCharToken 'v' <&&> parseVOffset <&&> parseOneCharToken '_')

/-- `ParseNonNegativeNumber(state, nullptr)`. -/
def skipNonNegativeNumber : Parser w Bool := succeeds (parseNonNegativeNumber false)

/-! ### Substitutions and template parameters -/

/-- `MaybeAppend` of each text in turn. -/
def appendAll : List String → Parser w Bool
  | [] => pure true
  | text :: texts => maybeAppendWithLength (.bytes (bytes text)) <&&> appendAll texts

/-- Append the texts of an abbreviation that was found at the cursor, then skip it. -/
def acceptAbbrev {α : Type} (found : Parser w (Option α)) (length : α → ℕ)
    (texts : α → List String) : Parser w Bool := do
  match ← found with
  | some p => appendAll (texts p) <&&> advance (length p)
  | none => return false

/-- `<template-param> ::= T_ | T <number> _`; the parameters are not substituted. -/
def parseTemplateParam : Parser w Bool :=
  (parseTwoCharToken "T_" <&&> maybeAppend "?") <||>
  attempt (parseOneCharToken 'T' <&&> skipNonNegativeNumber <&&> parseOneCharToken '_' <&&>
    maybeAppend "?")

/-- The loop over `kSubstitutionList`: the entry whose second letter is at the cursor. -/
def findSubstitution : Parser w (Option AbbrevPair) := do
  let c ← peek 0
  return kSubstitutionList.find? fun p => (bytes p.abbreviation).getD 1 0 == c

/-- What the source appends for an entry of `kSubstitutionList`. -/
def substitutionTexts (p : AbbrevPair) : List String :=
  "std" :: if p.realName == "" then [] else ["::", p.realName]

/-- `<substitution> ::= S_ | S <seq-id> _ | St`, etc. -/
def parseSubstitution : Parser w Bool :=
  (parseTwoCharToken "S_" <&&> optional parseAbiTags <&&> maybeAppend "?") <||>
  attempt (parseOneCharToken 'S' <&&> parseSeqId <&&> parseOneCharToken '_' <&&>
    optional parseAbiTags <&&> maybeAppend "?") <||>
  attempt (parseOneCharToken 'S' <&&>
    acceptAbbrev findSubstitution (fun _ => 1) substitutionTexts <&&> optional parseAbiTags)

/-- `<template-template-param> ::= <template-param> | <substitution>`. -/
def parseTemplateTemplateParam : Parser w Bool := parseTemplateParam <||> parseSubstitution

/-! ### Names -/

/-- The loop over `kOperatorList`, for two letters of which the first is in lower case. -/
def findOperator : Parser w (Option OperatorPair) := do
  let first ← peek 0
  if !isLower first then return none
  let second ← peek 1
  if !isAlpha second then return none
  return kOperatorList.find? fun p => bytes p.abbreviation == [first, second]

/-- What the source appends for an entry of `kOperatorList`. -/
def operatorTexts (p : OperatorPair) : List String :=
  "operator" :: (if isLower ((bytes p.realName).headD 0) then [" "] else []) ++ [p.realName]

/-- `mangled_cur[0] == first` and `mangled_cur[1]` is one of `seconds`. -/
def atTwoChars (first : Char) (seconds : String) : Parser w Bool := do
  if (← peek 0) == first.toUInt8 then return (bytes seconds).contains (← peek 1) else return false

/-- `mangled_cur[0] == '.' && mangled_cur[1] != '\0'`. -/
def atCloneSuffix : Parser w Bool := do
  if (← peek 0) == '.'.toUInt8 then return (← peek 1) != 0 else return false

/-- `prev_name != nullptr`. -/
def hasPrevName : Parser w Bool := saving fun state => pure state.prevName.isSome

/-- The name that constructors and destructors repeat. -/
def State.prevNameText (state : State) : Text :=
  .out (state.prevName.getD 0) state.prevNameLength.toNat

/-- Append the texts of `lead` and then `prev_name`, as it was before them. -/
def appendPrevName (lead : List String) : Parser w Bool := saving fun state =>
  if state.prevName.isSome then
    appendAll lead <&&> maybeAppendWithLength state.prevNameText
  else pure false

/-- The state of the optional reference qualifier of a nested name: its letter, or NUL. -/
def parseRefQualifier : Parser w Byte := do
  let c ← peek 0
  if c == 'R'.toUInt8 || c == 'O'.toUInt8 then
    let _ ← advance 1
    return c
  return 0

/-- The separator, a component, and the separator taken back when no component follows: the
start of an iteration of `ParsePrefix`. -/
def separated (component : Parser w Bool) : Parser w Bool := saving fun before => do
  if ← maybeAppendSeparator <&&> component then return true
  maybeCancelLastSeparator before.outCur
  return false

section Recursive

variable [Forward w]

/-- `<mangled-name> ::= _Z <encoding>`. -/
def parseMangledName : Parser w Bool := parseTwoCharToken "_Z" <&&> Forward.parseEncoding

/-- `<operator-name>`: a cast, a literal operator, a vendor operator or a listed one. -/
def parseOperatorName : Parser w Bool := atLeastNumCharsRemaining 2 <&&>
  (attempt (saving fun copy => parseTwoCharToken "cv" <&&> maybeAppend "operator " <&&>
      enterNestedName <&&> Forward.parseType <&&> leaveNestedName copy.nestLevel) <||>
    attempt (parseTwoCharToken "li" <&&> maybeAppend "operator\"\" " <&&> parseSourceName) <||>
    attempt (parseOneCharToken 'v' <&&> parseCharClass "0123456789" <&&> parseSourceName) <||>
    acceptAbbrev findOperator (fun _ => 2) operatorTexts)

/-- `<ctor-dtor-name>`. -/
def parseCtorDtorName : Parser w Bool :=
  attempt (parseTwoCharToken "CI" <&&> parseCharClass "12" <&&> hasPrevName <&&>
    Forward.parseType) <||>
  attempt (parseOneCharToken 'C' <&&> parseCharClass "12345" <&&> appendPrevName []) <||>
  attempt (parseOneCharToken 'D' <&&> parseCharClass "01245" <&&> appendPrevName ["~"])

/-- `<unnamed-type-name> ::= Ut [<number>] _ | Ul <lambda-sig> E [<number>] _`. -/
def parseUnnamedTypeName : Parser w Bool :=
  attempt (parseTwoCharToken "Ut" <&&> optional skipNonNegativeNumber <&&>
    parseOneCharToken '_') <||>
  attempt (parseTwoCharToken "Ul" <&&> saving fun previous =>
    disableAppend <&&> Forward.parseType <&&> zeroOrMore Forward.parseType <&&>
      parseOneCharToken 'E' <&&> optional skipNonNegativeNumber <&&> parseOneCharToken '_' <&&>
      restoreAppend previous.append <&&>
      modify fun state => { state with skipSeparator := true })

/-- `<unqualified-name> ::= DC <source-name>+ E`. -/
def parseStructuredBindingName : Parser w Bool :=
  attempt (parseTwoCharToken "DC" <&&> maybeAppend "[" <&&> parseSourceName <&&>
    optional (parseUntil ['E'.toUInt8] false
      (attempt (maybeAppend ", " <&&> parseSourceName))) <&&>
    parseOneCharToken 'E' <&&> maybeAppend "]")

/-- `<unqualified-name>`. -/
def parseUnqualifiedName : Parser w Bool :=
  attempt (parseOperatorName <&&> optional parseAbiTags) <||>
  attempt parseCtorDtorName <||>
  attempt ((atTwoChars 'U' "lt" <&&> parseUnnamedTypeName) <||>
    (atTwoChars 'D' "C" <&&> parseStructuredBindingName) <||>
    (parseSourceName <&&> optional parseAbiTags) <||>
    (parseLocalSourceName <&&> optional parseAbiTags))

/-- `<unscoped-name> ::= <unqualified-name> | St <unqualified-name>`. -/
def parseUnscopedName : Parser w Bool :=
  parseUnqualifiedName <||>
  attempt (parseTwoCharToken "St" <&&> maybeAppend "std::" <&&> parseUnqualifiedName)

/-- `<unscoped-template-name> ::= <unscoped-name> | <substitution>`. -/
def parseUnscopedTemplateName : Parser w Bool := parseUnscopedName <||> parseSubstitution

/-! ### Template arguments and signatures -/

/-- `<requires-clause> ::= Q <constraint-expression>`. -/
def parseRequiresClause : Parser w Bool := attempt <| saving fun copy =>
  disableAppend <&&> parseOneCharToken 'Q' <&&> Forward.parseExpression <&&>
    restoreAppend copy.append

/-- `<template-args> ::= I <template-arg>+ E`. -/
def parseTemplateArgs : Parser w Bool := attempt <| saving fun copy =>
  disableAppend <&&> parseOneCharToken 'I' <&&> oneOrMore Forward.parseTemplateArg <&&>
    optional parseRequiresClause <&&> parseOneCharToken 'E' <&&> restoreAppend copy.append <&&>
    (modify fun state => { state with skipSeparator := copy.skipSeparator }) <&&>
    maybeAppend "<>"

/-- `<bare-function-type> ::= <(signature) type>+`. -/
def parseBareFunctionType : Parser w Bool := attempt <| saving fun copy =>
  disableAppend <&&> oneOrMore Forward.parseType <&&> restoreAppend copy.append <&&>
    maybeAppend "()"

/-- `<exception-spec> ::= Do | DO <expression> E | Dw <type>+ E`. -/
def parseExceptionSpec : Parser w Bool := saving fun copy =>
  attempt (disableAppend <&&> parseTwoCharToken "Do" <&&> restoreAppend copy.append) <||>
  attempt (disableAppend <&&> parseTwoCharToken "DO" <&&> Forward.parseExpression <&&>
    parseOneCharToken 'E' <&&> restoreAppend copy.append) <||>
  attempt (disableAppend <&&> parseTwoCharToken "Dw" <&&> oneOrMore Forward.parseType <&&>
    parseOneCharToken 'E' <&&> restoreAppend copy.append)

/-- `<special-name>`. -/
def parseSpecialName : Parser w Bool :=
  attempt (parseTwoCharToken "GV" <&&> Forward.parseName) <||>
  attempt (parseTwoCharToken "GR" <&&> Forward.parseName <&&> optional parseSeqId <&&>
    parseOneCharToken '_') <||>
  attempt (parseTwoCharToken "GT" <&&> parseOneCharToken 't' <&&>
    maybeAppend "transaction clone for " <&&> Forward.parseEncoding) <||>
  attempt (parseTwoCharToken "TW" <&&> maybeAppend "TLS wrapper function for " <&&>
    Forward.parseName) <||>
  attempt (parseTwoCharToken "TH" <&&> maybeAppend "TLS init function for " <&&>
    Forward.parseName) <||>
  attempt (parseOneCharToken 'T' <&&> parseCharClass "VTIS" <&&> Forward.parseType) <||>
  attempt (parseTwoCharToken "Tc" <&&> parseCallOffset <&&> parseCallOffset <&&>
    Forward.parseEncoding) <||>
  attempt (parseOneCharToken 'T' <&&> parseCallOffset <&&> Forward.parseEncoding) <||>
  attempt (saving fun copy => parseTwoCharToken "TC" <&&> Forward.parseType <&&>
    skipNonNegativeNumber <&&> parseOneCharToken '_' <&&> disableAppend <&&>
    Forward.parseType <&&> restoreAppend copy.append) <||>
  attempt (parseOneCharToken 'T' <&&> parseCharClass "FJ" <&&> Forward.parseType) <||>
  attempt (parseTwoCharToken "GA" <&&> Forward.parseEncoding) <||>
  attempt (parseOneCharToken 'T' <&&> parseCharClass "hv" <&&> parseCallOffset <&&>
    Forward.parseEncoding)

/-! ### Types -/

/-- The loop over `kBuiltinTypeList`. -/
def findBuiltinType : Parser w (Option AbbrevPair) := saving fun state =>
  pure (kBuiltinTypeList.find? fun p => (bytes p.abbreviation).isPrefixOf (rest w state))

/-- `<builtin-type> ::= v, etc. | u <source-name>`. -/
def parseBuiltinType : Parser w Bool :=
  attempt (parseTwoCharToken "DF" <&&> skipNonNegativeNumber <&&>
    (parseOneCharToken '_' <||> parseOneCharToken 'x' <||> parseOneCharToken 'b')) <||>
  attempt (optional (parseTwoCharToken "DS") <&&>
    (parseTwoCharToken "DA" <||> parseTwoCharToken "DR") <&&> parseCharClass "stijlm") <||>
  attempt ((parseTwoCharToken "DB" <||> parseTwoCharToken "DU") <&&>
    (attempt (skipNonNegativeNumber <&&> parseOneCharToken '_') <||>
      (Forward.parseExpression <&&> parseOneCharToken '_'))) <||>
  acceptAbbrev findBuiltinType (fun p => p.abbreviation.length) (fun p => [p.realName]) <||>
  attempt (parseOneCharToken 'u' <&&> parseSourceName <&&> optional parseTemplateArgs)

/-- `<function-type> ::= F [Y] <bare-function-type> E`. -/
def parseFunctionType : Parser w Bool :=
  attempt (optional parseCVQualifiers <&&> optional parseExceptionSpec <&&>
    optional (parseTwoCharToken "Dx") <&&> parseOneCharToken 'F' <&&>
    optional (parseOneCharToken 'Y') <&&> parseBareFunctionType <&&>
    optional (parseCharClass "RO") <&&> parseOneCharToken 'E')

/-- `<class-enum-type> ::= <name>`. -/
def parseClassEnumType : Parser w Bool := Forward.parseName

/-- `<array-type>`. -/
def parseArrayType : Parser w Bool :=
  attempt (parseOneCharToken 'A' <&&> succeeds (parsePositiveNumber false) <&&>
    parseOneCharToken '_' <&&> Forward.parseType) <||>
  attempt (parseOneCharToken 'A' <&&> optional Forward.parseExpression <&&>
    parseOneCharToken '_' <&&> Forward.parseType)

/-- `<pointer-to-member-type> ::= M <(class) type> <(member) type>`. -/
def parsePointerToMemberType : Parser w Bool :=
  attempt (parseOneCharToken 'M' <&&> Forward.parseType <&&> Forward.parseType)

/-- `<type>`. -/
def parseType : Parser w Bool := guardDepth <| guardLevel .type <|
  attempt (parseCVQualifiers <&&> Forward.parseType) <||>
  attempt (parseCharClass "OPRCG" <&&> Forward.parseType) <||>
  attempt (parseTwoCharToken "Dp" <&&> Forward.parseType) <||>
  attempt ((parseTwoCharToken "Ts" <||> parseTwoCharToken "Tu" <||> parseTwoCharToken "Te") <&&>
    Forward.parseName) <||>
  attempt (parseOneCharToken 'D' <&&> parseCharClass "tT" <&&> Forward.parseExpression <&&>
    parseOneCharToken 'E') <||>
  attempt (parseOneCharToken 'U' <&&> parseSourceName <&&> optional parseTemplateArgs <&&>
    Forward.parseType) <||>
  attempt ((parseBuiltinType <||> parseFunctionType <||> parseClassEnumType <||>
      parseArrayType <||> parsePointerToMemberType <||> parseSubstitution) <||>
    (parseTemplateTemplateParam <&&> parseTemplateArgs)) <||>
  attempt parseTemplateParam

/-! ### Encodings and scoped names -/

/-- The text of the pending reference qualifier. -/
def appendRefQualifier : Parser w Bool := saving fun state =>
  if state.pendingRefQualifier == 'R'.toUInt8 then maybeAppend " &"
  else if state.pendingRefQualifier == 'O'.toUInt8 then maybeAppend " &&"
  else pure true

/-- `state->pending_ref_qualifier = value`. -/
def setPendingRefQualifier (value : Byte) : Parser w Bool :=
  modify fun state => { state with pendingRefQualifier := value }

/-- `<encoding>`. -/
def parseEncoding : Parser w Bool := guardDepth <| guardLevel .encoding <|
  attempt (Forward.parseName <&&> optional parseRequiresClause <&&> parseBareFunctionType <&&>
    appendRefQualifier <&&> setPendingRefQualifier 0 <&&> optional parseRequiresClause) <||>
  attempt (Forward.parseName <||> parseSpecialName)

/-- `<name>`. -/
def parseName : Parser w Bool := guardDepth <|
  (Forward.parseNestedName <||> Forward.parseLocalName) <||>
  attempt (parseUnscopedTemplateName <&&> parseTemplateArgs) <||>
  parseUnscopedName

/-- `<nested-name> ::= N [<CV-qualifiers>] <prefix> E`. -/
def parseNestedName : Parser w Bool := guardDepth <| attempt <| saving fun copy =>
  parseOneCharToken 'N' <&&> enterNestedName <&&> optional parseCVQualifiers <&&> do
    let refQualifier ← parseRefQualifier
    Forward.parsePrefix <&&> setPendingRefQualifier refQualifier <&&>
      leaveNestedName copy.nestLevel <&&> parseOneCharToken 'E'

/-- One iteration of the loop of `ParsePrefix`: true for `continue`, false for `break`. -/
def parsePrefixItem (hasSomething : Bool) : Parser w Bool :=
  (separated (parseTemplateParam <||> parseSubstitution <||> parseUnscopedName) <&&>
    maybeIncreaseNestLevel) <||>
  (pure hasSomething <&&> parseTemplateArgs) <||>
  attempt (parseOneCharToken 'M') <||>
  attempt (parseOneCharToken 'D' <&&> (parseOneCharToken 't' <||> parseOneCharToken 'T') <&&>
    Forward.parseExpression <&&> parseOneCharToken 'E')

/-- `<prefix>`. Each `continue` leaves `has_something` true, so only the first iteration runs
with it false. -/
def parsePrefix : Parser w Bool := guardDepth <|
  optional (parsePrefixItem false <&&> zeroOrMore (parsePrefixItem true))

/-- `<local-name>`. -/
def parseLocalName : Parser w Bool := guardDepth <| guardLevel .localName <|
  attempt (parseOneCharToken 'Z' <&&> Forward.parseEncoding <&&> parseOneCharToken 'E' <&&>
    maybeAppend "::" zero_notMem_separator <&&> Forward.parseName <&&>
    optional parseDiscriminator) <||>
  attempt (parseOneCharToken 'Z' <&&> Forward.parseEncoding <&&> parseTwoCharToken "Es" <&&>
    optional parseDiscriminator) <||>
  attempt (parseOneCharToken 'Z' <&&> Forward.parseEncoding <&&> parseTwoCharToken "Ed" <&&>
    optional skipNonNegativeNumber <&&> parseOneCharToken '_' <&&>
    maybeAppend "::" zero_notMem_separator <&&> Forward.parseName <&&>
    optional parseDiscriminator)

/-! ### Expressions -/

/-- `<function-param>`. -/
def parseFunctionParam : Parser w Bool :=
  attempt (parseTwoCharToken "fp" <&&> optional parseCVQualifiers <&&>
    (parseOneCharToken 'T' <||> (optional skipNonNegativeNumber <&&> parseOneCharToken '_'))) <||>
  attempt (parseTwoCharToken "fL" <&&> skipNonNegativeNumber <&&> parseOneCharToken 'p' <&&>
    optional parseCVQualifiers <&&> optional skipNonNegativeNumber <&&> parseOneCharToken '_')

/-- `ParseSimpleId`. -/
def parseSimpleId : Parser w Bool := attempt (parseSourceName <&&> optional parseTemplateArgs)

/-- `ParseUnresolvedType`. -/
def parseUnresolvedType : Parser w Bool :=
  attempt (parseTemplateParam <&&> optional parseTemplateArgs) <||>
  attempt (parseTwoCharToken "St" <&&> maybeAppend "std::" <&&> parseSimpleId) <||>
  attempt parseSubstitution <||>
  attempt ((parseTwoCharToken "Dt" <||> parseTwoCharToken "DT") <&&> Forward.parseExpression <&&>
    parseOneCharToken 'E')

/-- `ParseBaseUnresolvedName`. -/
def parseBaseUnresolvedName : Parser w Bool :=
  attempt parseSimpleId <||>
  attempt (parseTwoCharToken "on" <&&> parseOperatorName <&&> optional parseTemplateArgs) <||>
  attempt (parseTwoCharToken "dn" <&&> (parseUnresolvedType <||> parseSimpleId))

/-- `<unresolved-name>`. -/
def parseUnresolvedName : Parser w Bool :=
  attempt parseBaseUnresolvedName <||>
  attempt (optional (parseTwoCharToken "gs") <&&> parseBaseUnresolvedName) <||>
  attempt (optional (parseTwoCharToken "gs") <&&> parseTwoCharToken "sr" <&&>
    oneOrMore parseSimpleId <&&> parseOneCharToken 'E' <&&> parseBaseUnresolvedName) <||>
  attempt (parseTwoCharToken "sr" <&&> oneOrMore parseSimpleId <&&> parseOneCharToken 'E' <&&>
    parseBaseUnresolvedName) <||>
  attempt (parseTwoCharToken "sr" <&&> parseUnresolvedType <&&> parseBaseUnresolvedName) <||>
  attempt (parseTwoCharToken "sr" <&&> parseOneCharToken 'N' <&&> parseUnresolvedType <&&>
    oneOrMore parseSimpleId <&&> parseOneCharToken 'E' <&&> parseBaseUnresolvedName)

/-- `<braced-expression>`. -/
def parseBracedExpression : Parser w Bool := guardDepth <|
  attempt Forward.parseExpression <||>
  attempt (parseTwoCharToken "di" <&&> parseSourceName <&&> Forward.parseBracedExpression) <||>
  attempt (parseTwoCharToken "dx" <&&> Forward.parseExpression <&&>
    Forward.parseBracedExpression) <||>
  attempt (parseTwoCharToken "dX" <&&> Forward.parseExpression <&&> Forward.parseExpression <&&>
    Forward.parseBracedExpression)

/-- `ParseExpressionSequence`. -/
def parseExpressionSequence (terminator : Char) (requireOne : Bool) : Parser w Bool :=
  parseUntil [terminator.toUInt8] requireOne Forward.parseExpression

/-- `ParseBracedExpressionSequence`. -/
def parseBracedExpressionSequence : Parser w Bool :=
  parseUntil ['E'.toUInt8] false Forward.parseBracedExpression

/-- `<initializer> ::= pi <expression>* E`. -/
def parseInitializer : Parser w Bool :=
  parseTwoCharToken "pi" <&&> parseExpressionSequence 'E' false <&&> parseOneCharToken 'E'

/-- One requirement of a requires expression. -/
def parseRequirement : Parser w Bool :=
  parseOneCharToken 'X' <&&> Forward.parseExpression <&&> optional (parseOneCharToken 'N') <&&>
    branch (parseOneCharToken 'R') Forward.parseName (pure true)

/-- `<expression> ::= rq <requirement>+ E | rQ <bare-function-type> _ <requirement>+ E`. -/
def parseRequiresExpression : Parser w Bool :=
  attempt (branch (parseTwoCharToken "rQ")
      (parseUntil ['_'.toUInt8, 0] false Forward.parseType <&&> parseOneCharToken '_')
      (parseTwoCharToken "rq") <&&>
    parseUntil ['E'.toUInt8, 0] true parseRequirement <&&> parseOneCharToken 'E')

/-- `OperatorHasArity`, on the bytes at `op`. -/
def operatorHasArity (op : List Byte) (arity : OperatorArity) : Bool :=
  if (bytes "cv").isPrefixOf op || (bytes "li").isPrefixOf op ||
      (op.headD 0 == 'v'.toUInt8 && isDigit (op.getD 1 0)) then
    arity == .unary
  else
    match kOperatorList.find? fun p => bytes p.abbreviation == op.take 2 with
    | some p => p.arity == arity
    | none => false

/-- `ParseOperatorNameWithArity`. -/
def parseOperatorNameWithArity (arity : OperatorArity) : Parser w Bool :=
  (saving fun state => pure (operatorHasArity (rest w state) arity)) <&&> parseOperatorName

/-- `<expr-primary>`. -/
def parseExprPrimary : Parser w Bool :=
  attempt (parseOneCharToken 'L' <&&> Forward.parseType <&&> succeeds (parseNumber false) <&&>
    parseOneCharToken 'E') <||>
  attempt (parseOneCharToken 'L' <&&> Forward.parseType <&&> parseFloatNumber <&&>
    (parseOneCharToken 'E' <||>
      (parseOneCharToken '_' <&&> parseFloatNumber <&&> parseOneCharToken 'E'))) <||>
  attempt (parseOneCharToken 'L' <&&> parseTwoCharToken "Dn" <&&> parseOneCharToken 'E') <||>
  attempt (parseOneCharToken 'L' <&&> parseMangledName <&&> parseOneCharToken 'E') <||>
  attempt (parseTwoCharToken "LZ" <&&> Forward.parseEncoding <&&> parseOneCharToken 'E') <||>
  attempt (parseOneCharToken 'L' <&&> saving fun previous => disableAppend <&&>
    parseArrayType <&&> parseOneCharToken 'E' <&&> restoreAppend previous.append)

/-- The alternatives of `<expression>` below its level guard, up to the unresolved names. -/
def parseListedExpression : Parser w Bool :=
  attempt ((parseTwoCharToken "pp" <||> parseTwoCharToken "mm") <&&> parseOneCharToken '_' <&&>
    Forward.parseExpression) <||>
  attemptTwice (parseTwoCharToken "cv" <&&> Forward.parseType) Forward.parseExpression
    (parseTwoCharToken "cv" <&&> Forward.parseType <&&> parseOneCharToken '_' <&&>
      parseExpressionSequence 'E' false <&&> parseOneCharToken 'E') <||>
  attempt (parseTwoCharToken "ti" <&&> Forward.parseType) <||>
  attempt (parseTwoCharToken "te" <&&> Forward.parseExpression) <||>
  attempt (parseTwoCharToken "at" <&&> Forward.parseType) <||>
  attempt (parseTwoCharToken "az" <&&> Forward.parseExpression) <||>
  attempt (parseTwoCharToken "nx" <&&> Forward.parseExpression) <||>
  attempt (parseTwoCharToken "tw" <&&> Forward.parseExpression) <||>
  attempt (parseTwoCharToken "tr") <||>
  attempt (optional (parseOneCharToken 'g') <&&>
    (parseTwoCharToken "nw" <||> parseTwoCharToken "na") <&&>
    optional (parseUntil ['_'.toUInt8, 0] false Forward.parseExpression) <&&>
    parseOneCharToken '_' <&&> Forward.parseType <&&>
    (parseOneCharToken 'E' <||> parseInitializer)) <||>
  attempt (optional (parseOneCharToken 'g') <&&>
    (parseTwoCharToken "dl" <||> parseTwoCharToken "da") <&&> Forward.parseExpression) <||>
  attempt ((parseTwoCharToken "fl" <||> parseTwoCharToken "fr") <&&> parseOperatorName <&&>
    Forward.parseExpression) <||>
  attempt ((parseTwoCharToken "fL" <||> parseTwoCharToken "fR") <&&> parseOperatorName <&&>
    Forward.parseExpression <&&> Forward.parseExpression) <||>
  attempt (parseOneCharToken 'u' <&&> parseSourceName <&&> zeroOrMore Forward.parseTemplateArg <&&>
    parseOneCharToken 'E') <||>
  attempt (parseTwoCharToken "cl" <&&> parseExpressionSequence 'E' true <&&>
    parseOneCharToken 'E') <||>
  attempt (parseTwoCharToken "cp" <&&> parseUnresolvedName <&&>
    parseExpressionSequence 'E' false <&&> parseOneCharToken 'E') <||>
  attempt ((parseTwoCharToken "dc" <||> parseTwoCharToken "sc" <||> parseTwoCharToken "cc" <||>
    parseTwoCharToken "rc") <&&> Forward.parseType <&&> Forward.parseExpression) <||>
  attempt (parseTwoCharToken "tl" <&&> Forward.parseType <&&> parseBracedExpressionSequence <&&>
    parseOneCharToken 'E') <||>
  attempt (parseTwoCharToken "il" <&&> parseBracedExpressionSequence <&&>
    parseOneCharToken 'E') <||>
  attempt (parseTwoCharToken "ds" <&&> Forward.parseExpression <&&> Forward.parseExpression) <||>
  attempt (parseTwoCharToken "sZ" <&&> (parseTemplateParam <||> parseFunctionParam)) <||>
  attempt (parseTwoCharToken "sP" <&&> zeroOrMore Forward.parseTemplateArg <&&>
    parseOneCharToken 'E') <||>
  attempt (parseTwoCharToken "dt" <&&> Forward.parseExpression <&&> parseUnresolvedName) <||>
  attempt (parseTwoCharToken "pt" <&&> Forward.parseExpression <&&> parseUnresolvedName)

/-- The remaining alternatives of `<expression>`, from the unresolved names on. -/
def parseNamedExpression : Parser w Bool :=
  attempt parseUnresolvedName <||>
  attempt (parseOperatorNameWithArity .ternary <&&> Forward.parseExpression <&&>
    Forward.parseExpression <&&> Forward.parseExpression) <||>
  attempt (parseOperatorNameWithArity .binary <&&> Forward.parseExpression <&&>
    Forward.parseExpression) <||>
  attempt (parseOperatorNameWithArity .unary <&&> Forward.parseExpression) <||>
  attempt (parseTwoCharToken "st" <&&> Forward.parseType) <||>
  attempt (parseTwoCharToken "sr" <&&> parseSourceName <&&> parseOneCharToken 'E' <&&>
    parseUnqualifiedName <&&> parseTemplateArgs) <||>
  attempt (parseTwoCharToken "sr" <&&> Forward.parseType <&&> parseUnqualifiedName <&&>
    parseTemplateArgs) <||>
  attempt (parseTwoCharToken "sr" <&&> Forward.parseType <&&> parseUnqualifiedName) <||>
  attempt (parseTwoCharToken "sp" <&&> Forward.parseExpression)

/-- `<expression>`. -/
def parseExpression : Parser w Bool := guardDepth <|
  (parseTemplateParam <||> parseFunctionParam <||> parseExprPrimary <||>
    parseRequiresExpression) <||>
  guardLevel .expression (attempt (parseListedExpression <||> parseNamedExpression))

/-- `<template-arg>`. -/
def parseTemplateArg : Parser w Bool := guardDepth <| guardLevel .templateArg <|
  attempt ((parseOneCharToken 'I' <||> parseOneCharToken 'J') <&&>
    zeroOrMore Forward.parseTemplateArg <&&> parseOneCharToken 'E') <||>
  attempt (Forward.parseType <||> parseExprPrimary) <||>
  attempt (parseOneCharToken 'X' <&&> Forward.parseExpression <&&> parseOneCharToken 'E')

/-- `ParseTopLevelMangledName`: a mangled name, and a version suffix, which is appended, or a
function-clone suffix, which is dropped. -/
def parseTopLevelMangledName : Parser w Bool := parseMangledName <&&> do
  let c ← peek 0
  if c == 0 then return true
  if c == '@'.toUInt8 then
    saving fun state => maybeAppendWithLength (.bytes (rest w state))
  else atCloneSuffix

end Recursive

/-! ### Tying the recursion -/

/-- The recursive parse functions, at most `fuel` of them nested. -/
@[reducible] def forwardAt (w : CString) : ℕ → Forward w
  | 0 =>
    { parseEncoding := fault .outOfFuel
      parseName := fault .outOfFuel
      parseNestedName := fault .outOfFuel
      parsePrefix := fault .outOfFuel
      parseType := fault .outOfFuel
      parseTemplateArg := fault .outOfFuel
      parseBracedExpression := fault .outOfFuel
      parseExpression := fault .outOfFuel
      parseLocalName := fault .outOfFuel }
  | fuel + 1 =>
    letI := forwardAt w fuel
    { parseEncoding := parseEncoding
      parseName := parseName
      parseNestedName := parseNestedName
      parsePrefix := parsePrefix
      parseType := parseType
      parseTemplateArg := parseTemplateArg
      parseBracedExpression := parseBracedExpression
      parseExpression := parseExpression
      parseLocalName := parseLocalName }

/-- One more than the depth that the guards allow. -/
def parseFuel : ℕ := maxLevel .depth + 1

/-- `InitState`, after the write `out[0] = '\0'` of `Demangle`. -/
def initState : State :=
  { mangledCur := 0
    outCur := 0
    prevName := none
    prevNameLength := -1
    nestLevel := -1
    append := true
    overflowed := false
    skipSeparator := false
    localLevel := 0
    exprLevel := 0
    argLevel := 0
    pendingRefQualifier := 0
    encodingLevel := 0
    typeLevel := 0
    parseDepth := 0
    kept := [⟨0, 0, .terminate⟩] }

/-- The machine that `Demangle` starts from: the state of `InitState`, the caller's buffer with
`out[0] = '\0'` written, and the whole budget of steps. -/
def initMachine (out : List Byte) : Machine State Store :=
  ⟨initState, { out := (out.map fun b => ⟨b, false⟩).set 0 ⟨0, true⟩
                stepsRemaining := kMaxParseSteps
                ops := [⟨0, 0, .terminate⟩] }⟩

/-- `Demangle(mangled, out, out_size)`: what it returns, and the machine at its end. -/
def demangle (w : CString) (out : List Byte) : Except Fault (Bool × Machine State Store) :=
  if out.length = 0 then .ok (false, initMachine out)
  else
    letI := forwardAt w parseFuel
    (do
      if ← parseTopLevelMangledName then
        saving fun state => do
          if !state.overflowed then return true
          -- A failed parse can leave partial output without a terminating null character.
          writeOut 0 .terminate
          return false
      else
        writeOut 0 .terminate
        return false : Parser w Bool) (initMachine out)

/-- The bytes of the caller's buffer after a run. -/
def outBytes (m : Machine State Store) : List Byte := m.store.out.map Cell.byte

end Demangle

end NgLog
