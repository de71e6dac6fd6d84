import Mathlib.Data.List.GetD
import Mathlib.Data.List.TakeWhile
import NgLog.Flags.Consistency
import NgLog.Flags.Suggestions

/-!
# Parsing the command line

`ParseCommandLineFlags` walks over `argv`, sets the flags that it recognises, and in one of its
modes removes them from `argv` by moving the other arguments down as it goes.

The flags' own parsers, validators and values are not part of this: `setFromString` is what they
make of an assignment. The loop has as many rounds as there are arguments, which is enough since
each round takes at least one. Where the source exits the process, the model returns the reason.

## Main definitions

* `parseArgument`, `parseLoop`, `parseCommandLineFlags` — the function
* `Token`, `readTokens` — what the arguments mean, one after the other

## Main results

* `readOption_of_flag`, `readOption_of_negated` — what `--name=value`, `--name value` and `--noname`
  say
* `parseArgument_eq` — a round of the loop does what the next token says
* `parseCommandLineFlags_spec` — the function keeps the arguments that set no flag, in order, and
  sets the flags from left to right, in either mode
-/

namespace NgLog

namespace Flags

/-! ### The function -/

/-- `FlagParsingMode`. -/
inductive FlagParsingMode
  | keepFlags
  | removeFlags
deriving DecidableEq

/-- `UnknownFlagMode`. -/
inductive UnknownFlagMode
  | error
  | ignore
deriving DecidableEq

/-- Why the process exits. -/
inductive Exit
  /-- The option, after one dash or two, is unknown. Another one may be meant. -/
  | unknownFlag (dashes name suggestion : Text)
  | helpTakesNoValue
  /-- The help is printed. -/
  | help
  | notBoolean (name : Text)
  | negationTakesNoValue (name : Text)
  | missingValue (name : Text)
  | invalidValue (flag : FlagBase) (value error : Text)
  /-- A null pointer is used as a string. -/
  | nullArgument

/-- What the function works on: the registry, the strings behind the pointers of `argv`, and
`SetFromString` as a function of the values of all flags. -/
structure Parser (Formatter Arg Values : Type) where
  registry : Registry Formatter
  /-- The names in `registry.flags`, in their order. -/
  flagNames : List Text
  /-- `std::numeric_limits<std::size_t>::max()` -/
  sizeMax : ℕ
  chars : Arg → CString
  setFromString : FlagBase → Text → Values → Except Text Values

/-- The variables of the function. -/
structure ParseState (Arg Values : Type) where
  argv : List (Option Arg)
  input : ℕ
  output : ℕ
  endOfFlags : Bool
  parsedFlags : ℕ
  values : Values

/-- What the function returns and leaves in `argc` and `argv`. -/
structure ParseResult (Arg Values : Type) where
  argc : ℕ
  argv : List (Option Arg)
  parsedFlags : ℕ
  values : Values

variable {Formatter Arg Values : Type}

/-- `'='`. -/
def equalsSign : Byte := 61

/-- The name of an option, and its value if there is an equals sign. -/
def splitOption (option : Text) : Text × Option Text :=
  (option.takeWhile (· ≠ equalsSign),
    if equalsSign ∈ option then some (option.dropWhile (· ≠ equalsSign)).tail else none)

/-- The flag that a name selects, and whether it negates it. -/
def selectFlag (r : Registry Formatter) (name : Text) : Except Exit (Option (FlagBase × Bool)) :=
  match r.findFlagLocked name with
  | some flag => .ok (some (flag, false))
  | none =>
    match r.findNegatedLocked name with
    | some candidate =>
      if candidate.typeName ≠ boolTypeName then .error (.notBoolean name)
      else .ok (some (candidate, true))
    | none => .ok none

/-- The value of a recognised flag, or nothing if it is the next argument. -/
def impliedValue (name : Text) (flag : FlagBase) (negated : Bool) (inline : Option Text) :
    Except Exit (Option Text) :=
  if negated then
    if inline.isSome then .error (.negationTakesNoValue name) else .ok (some (bytes "false"))
  else
    match inline with
    | some value => .ok (some value)
    | none => .ok (if flag.typeName = boolTypeName then some (bytes "true") else none)

/-- `(*argv)[output++] = argument`, if flags are removed. -/
def ParseState.keep (s : ParseState Arg Values) (mode : FlagParsingMode) (argument : Arg) :
    ParseState Arg Values :=
  if mode = .removeFlags then
    { s with argv := s.argv.set s.output (some argument), output := s.output + 1 }
  else s

/-- `(*argv)[i]`, used as a string. -/
def ParseState.load (s : ParseState Arg Values) (i : ℕ) : Except Exit Arg :=
  match s.argv.getD i none with
  | some argument => .ok argument
  | none => .error .nullArgument

namespace Parser

/-- `FindClosestOptionLocked`. -/
def findClosestOptionLocked (p : Parser Formatter Arg Values) (name : Text) : Text :=
  Suggestions.findClosestMatch p.sizeMax name (kBuiltinHelpName :: p.flagNames)

/-- What is suggested for an option after a single dash. -/
def suggestion (p : Parser Formatter Arg Values) (name : Text) : Text :=
  if p.registry.isLongOptionLocked name then name else p.findClosestOptionLocked name

/-- The end of a round that has recognised a flag. -/
def assign (p : Parser Formatter Arg Values) (flag : FlagBase) (value : Text)
    (s : ParseState Arg Values) : Except Exit (ParseState Arg Values) :=
  match p.setFromString flag value s.values with
  | .error error => .error (.invalidValue flag value error)
  | .ok values => .ok { s with values := values, parsedFlags := s.parsedFlags + 1 }

/-- The part of a round for an argument that begins with two dashes. -/
def parseOption (p : Parser Formatter Arg Values) (mode : FlagParsingMode)
    (unknownMode : UnknownFlagMode) (argc : ℕ) (argument : Arg) (s : ParseState Arg Values) :
    Except Exit (ParseState Arg Values) := do
  let (name, inline) := splitOption ((p.chars argument).text.drop 2)
  if name = kBuiltinHelpName then
    throw (if inline.isSome then .helpTakesNoValue else .help)
  match ← selectFlag p.registry name with
  | none =>
    if unknownMode = .ignore then return s.keep mode argument
    throw (.unknownFlag (bytes "--") name (p.findClosestOptionLocked name))
  | some (flag, negated) =>
    match ← impliedValue name flag negated inline with
    | some value => p.assign flag value s
    | none =>
      if s.input + 1 ≥ argc then throw (.missingValue name)
      let value ← s.load (s.input + 1)
      p.assign flag (p.chars value).text { s with input := s.input + 1 }

/-- A round of the loop. -/
def parseArgument (p : Parser Formatter Arg Values) (mode : FlagParsingMode)
    (unknownMode : UnknownFlagMode) (argc : ℕ) (s : ParseState Arg Values) :
    Except Exit (ParseState Arg Values) := do
  let argument ← s.load s.input
  let text := (p.chars argument).text
  if !s.endOfFlags ∧ text = bytes "--" then
    let s := { s with endOfFlags := true }
    return if unknownMode = .ignore then s.keep mode argument else s
  if s.endOfFlags ∨ ¬bytes "--" <+: text then
    let singleDash := text.head? = some dash ∧ text.tail ≠ []
    if ¬s.endOfFlags ∧ singleDash ∧ unknownMode = .error then
      let name := (splitOption text.tail).1
      throw (.unknownFlag (bytes "-") name (p.suggestion name))
    return s.keep mode argument
  p.parseOption mode unknownMode argc argument s

/-- The loop, for a number of rounds. -/
def parseLoop (p : Parser Formatter Arg Values) (mode : FlagParsingMode)
    (unknownMode : UnknownFlagMode) (argc : ℕ) :
    ℕ → ParseState Arg Values → Except Exit (ParseState Arg Values)
  | 0, s => .ok s
  | rounds + 1, s =>
    if s.input < argc then do
      let s ← p.parseArgument mode unknownMode argc s
      p.parseLoop mode unknownMode argc rounds { s with input := s.input + 1 }
    else .ok s

/-- `ParseCommandLineFlags`. -/
def parseCommandLineFlags (p : Parser Formatter Arg Values) (mode : FlagParsingMode)
    (unknownMode : UnknownFlagMode) (argc : ℕ) (argv : List (Option Arg)) (values : Values) :
    Except Exit (ParseResult Arg Values) := do
  let s ← p.parseLoop mode unknownMode argc argc
    { argv := argv
      input := 1
      output := 1
      endOfFlags := false
      parsedFlags := 0
      values := values }
  if mode = .removeFlags then
    return ⟨s.output, s.argv.set s.output none, s.parsedFlags, s.values⟩
  return ⟨argc, s.argv, s.parsedFlags, s.values⟩

end Parser

/-! ### What the arguments mean -/

/-- One or two arguments that belong together. -/
inductive Token (Arg : Type)
  /-- The first `"--"`. -/
  | separator (argument : Arg)
  /-- An argument that is left to others. -/
  | word (argument : Arg)
  /-- A flag with its value, and the arguments that spell it. -/
  | assignment (flag : FlagBase) (value : Text) (argument : Arg) (next : Option Arg)

namespace Token

/-- The arguments of the token. -/
def arguments : Token Arg → List Arg
  | separator argument => [argument]
  | word argument => [argument]
  | assignment _ _ argument next => argument :: next.toList

/-- The arguments that are left in `argv`. -/
def kept (unknownMode : UnknownFlagMode) : Token Arg → List Arg
  | separator argument => if unknownMode = .ignore then [argument] else []
  | word argument => [argument]
  | assignment .. => []

theorem length_arguments_pos : ∀ token : Token Arg, 0 < token.arguments.length
  | separator _ => Nat.zero_lt_one
  | word _ => Nat.zero_lt_one
  | assignment .. => Nat.succ_pos _

/-- The flag that is set, and its value. -/
def setting : Token Arg → Option (FlagBase × Text)
  | assignment flag value _ _ => some (flag, value)
  | _ => none

/-- The token ends the options. -/
def isSeparator : Token Arg → Bool
  | separator _ => true
  | _ => false

end Token

namespace Parser

/-- The meaning of an argument that begins with two dashes, before the others. -/
def readOption (p : Parser Formatter Arg Values) (unknownMode : UnknownFlagMode) (argument : Arg)
    (rest : List Arg) : Except Exit (Token Arg) := do
  let (name, inline) := splitOption ((p.chars argument).text.drop 2)
  if name = kBuiltinHelpName then
    throw (if inline.isSome then .helpTakesNoValue else .help)
  match ← selectFlag p.registry name with
  | none =>
    if unknownMode = .ignore then return .word argument
    throw (.unknownFlag (bytes "--") name (p.findClosestOptionLocked name))
  | some (flag, negated) =>
    match ← impliedValue name flag negated inline with
    | some value => return .assignment flag value argument none
    | none =>
      match rest with
      | [] => throw (.missingValue name)
      | value :: _ => return .assignment flag (p.chars value).text argument (some value)

/-- The meaning of an argument before the others. -/
def readToken (p : Parser Formatter Arg Values) (unknownMode : UnknownFlagMode) (endOfFlags : Bool)
    (argument : Arg) (rest : List Arg) : Except Exit (Token Arg) :=
  let text := (p.chars argument).text
  if endOfFlags then .ok (.word argument)
  else if text = bytes "--" then .ok (.separator argument)
  else if bytes "--" <+: text then p.readOption unknownMode argument rest
  else if text.head? = some dash ∧ text.tail ≠ [] ∧ unknownMode = .error then
    let name := (splitOption text.tail).1
    .error (.unknownFlag (bytes "-") name (p.suggestion name))
  else .ok (.word argument)

section Spellings

variable {p : Parser Formatter Arg Values} {unknownMode : UnknownFlagMode} {flag : FlagBase}
  {name value : Text} {argument next : Arg} {rest : List Arg}

theorem splitOption_of_notMem (h : equalsSign ∉ name) : splitOption name = (name, none) := by
  have hall : ∀ c ∈ name, decide (c ≠ equalsSign) = true := fun c hc =>
    decide_eq_true fun heq => h (heq ▸ hc)
  rw [splitOption, List.takeWhile_eq_self_iff.mpr hall, if_neg h]

theorem splitOption_append (h : equalsSign ∉ name) :
    splitOption (name ++ equalsSign :: value) = (name, some value) := by
  have hall : ∀ c ∈ name, decide (c ≠ equalsSign) = true := fun c hc =>
    decide_eq_true fun heq => h (heq ▸ hc)
  rw [splitOption, List.takeWhile_append_of_pos hall, List.dropWhile_append_of_pos hall,
    List.takeWhile_cons_of_neg (by simp), List.dropWhile_cons_of_neg (by simp), List.append_nil,
    if_pos (by simp), List.tail_cons]

theorem drop_dashes (option : Text) : (bytes "--" ++ option).drop 2 = option :=
  List.drop_left' (by decide)

theorem drop_negation (name : Text) :
    (kNegationPrefix ++ name).drop kNegationPrefix.length = name := List.drop_left' rfl

/-- The option names a flag, and its value follows an equals sign or does not. -/
theorem readOption_of_flag (hname : equalsSign ∉ name) (hhelp : name ≠ kBuiltinHelpName)
    (hflag : p.registry.findFlagLocked name = some flag) :
    ((p.chars argument).text = bytes "--" ++ (name ++ equalsSign :: value) →
      p.readOption unknownMode argument rest = .ok (.assignment flag value argument none)) ∧
    ((p.chars argument).text = bytes "--" ++ name → flag.typeName = boolTypeName →
      p.readOption unknownMode argument rest =
        .ok (.assignment flag (bytes "true") argument none)) ∧
    ((p.chars argument).text = bytes "--" ++ name → flag.typeName ≠ boolTypeName →
      p.readOption unknownMode argument (next :: rest) =
        .ok (.assignment flag (p.chars next).text argument (some next))) := by
  have hselect : selectFlag p.registry name = .ok (some (flag, false)) := by
    rw [selectFlag, hflag]
  refine ⟨fun htext => ?_, fun htext htype => ?_, fun htext htype => ?_⟩
  · rw [readOption, htext, drop_dashes, splitOption_append hname]
    simp only [if_neg hhelp, hselect, impliedValue]
    rfl
  · have hvalue : impliedValue name flag false none = .ok (some (bytes "true")) :=
      congrArg Except.ok (if_pos htype)
    rw [readOption, htext, drop_dashes, splitOption_of_notMem hname]
    simp only [if_neg hhelp, hselect, bind, Except.bind, hvalue]
    rfl
  · have hvalue : impliedValue name flag false none = .ok none :=
      congrArg Except.ok (if_neg htype)
    rw [readOption, htext, drop_dashes, splitOption_of_notMem hname]
    simp only [if_neg hhelp, hselect, bind, Except.bind, hvalue]
    rfl

/-- The option negates a flag. -/
theorem readOption_of_negated (hname : equalsSign ∉ name)
    (hnone : p.registry.findFlagLocked (kNegationPrefix ++ name) = none)
    (hflag : p.registry.findFlagLocked name = some flag) (htype : flag.typeName = boolTypeName)
    (htext : (p.chars argument).text = bytes "--" ++ (kNegationPrefix ++ name)) :
    p.readOption unknownMode argument rest =
      .ok (.assignment flag (bytes "false") argument none) := by
  have hname' : equalsSign ∉ kNegationPrefix ++ name := fun h =>
    (List.mem_append.mp h).elim (by decide) hname
  have hhelp : kNegationPrefix ++ name ≠ kBuiltinHelpName := by
    intro h
    have hhead : (kNegationPrefix ++ name).head? = kNegationPrefix.head? :=
      List.head?_append_of_ne_nil _ (by decide)
    rw [h] at hhead
    exact absurd hhead (by decide)
  have hselect : selectFlag p.registry (kNegationPrefix ++ name) = .ok (some (flag, true)) := by
    have hprefix : kNegationPrefix.isPrefixOf (kNegationPrefix ++ name) = true := by simp
    rw [selectFlag, hnone, Registry.findNegatedLocked, if_pos hprefix, drop_negation, hflag]
    exact if_neg (not_not_intro htype)
  rw [readOption, htext, drop_dashes, splitOption_of_notMem hname']
  simp only [if_neg hhelp, hselect, impliedValue]
  rfl

end Spellings

/-- The meaning of all arguments. -/
def readTokens (p : Parser Formatter Arg Values) (unknownMode : UnknownFlagMode) :
    Bool → List Arg → Except Exit (List (Token Arg))
  | _, [] => .ok []
  | endOfFlags, argument :: rest => do
    let token ← p.readToken unknownMode endOfFlags argument rest
    let tokens ← p.readTokens unknownMode (endOfFlags || token.isSeparator)
      (rest.drop (token.arguments.length - 1))
    return token :: tokens
termination_by _ arguments => arguments.length

/-- The values after a setting. -/
def set (p : Parser Formatter Arg Values) (values : Values) (setting : FlagBase × Text) :
    Except Text Values := p.setFromString setting.1 setting.2 values

end Parser

/-! ### A round of the loop -/

namespace Parser

/-- What a token does to the variables of the function, but for the step to the next round. -/
def applyToken (p : Parser Formatter Arg Values) (mode : FlagParsingMode)
    (unknownMode : UnknownFlagMode) (s : ParseState Arg Values) :
    Token Arg → Except Exit (ParseState Arg Values)
  | .separator argument =>
    let s := { s with endOfFlags := true }
    .ok (if unknownMode = .ignore then s.keep mode argument else s)
  | .word argument => .ok (s.keep mode argument)
  | .assignment flag value _ next =>
    p.assign flag value { s with input := s.input + next.toList.length }

/-- The rest of the arguments is what `argv` holds after the current one. -/
def NextIs (s : ParseState Arg Values) (argc : ℕ) : List Arg → Prop
  | [] => argc ≤ s.input + 1
  | next :: _ => s.input + 1 < argc ∧ s.load (s.input + 1) = .ok next

theorem parseOption_eq (p : Parser Formatter Arg Values) (mode : FlagParsingMode)
    (unknownMode : UnknownFlagMode) {argc : ℕ} {s : ParseState Arg Values} (argument : Arg)
    {rest : List Arg} (hnext : NextIs s argc rest) :
    p.parseOption mode unknownMode argc argument s =
      (p.readOption unknownMode argument rest).bind (p.applyToken mode unknownMode s) := by
  rw [parseOption, readOption]
  obtain ⟨name, inline⟩ := splitOption ((p.chars argument).text.drop 2)
  simp only [bind, Except.bind, throw, throwThe, MonadExceptOf.throw, pure, Except.pure]
  split
  · rfl
  rcases selectFlag p.registry name with exit | _ | ⟨flag, negated⟩ <;> dsimp only
  · split <;> rfl
  rcases impliedValue name flag negated inline with exit | _ | value <;> dsimp only
  · cases rest with
    | nil => rw [if_pos (show s.input + 1 ≥ argc from hnext)]
    | cons next rest =>
      obtain ⟨hlt, hload⟩ := hnext
      rw [if_neg (by omega), hload]
      rfl
  · rfl

/-- A round of the loop does what the next token says. -/
theorem parseArgument_eq (p : Parser Formatter Arg Values) (mode : FlagParsingMode)
    (unknownMode : UnknownFlagMode) {argc : ℕ} {s : ParseState Arg Values} {argument : Arg}
    {rest : List Arg} (hload : s.load s.input = .ok argument) (hnext : NextIs s argc rest) :
    p.parseArgument mode unknownMode argc s =
      (p.readToken unknownMode s.endOfFlags argument rest).bind
        (p.applyToken mode unknownMode s) := by
  rw [parseArgument, readToken, hload]
  simp only [bind, Except.bind, throw, throwThe, MonadExceptOf.throw, pure, Except.pure]
  cases hend : s.endOfFlags
  · by_cases hseparator : (p.chars argument).text = bytes "--"
    · simp only [hseparator, Bool.not_false, and_self, if_true, Bool.false_eq_true, if_false]
      rfl
    by_cases hprefix : bytes "--" <+: (p.chars argument).text
    · simp only [hseparator, hprefix, and_false, if_false, Bool.false_eq_true, not_true_eq_false,
        or_self, if_true]
      exact parseOption_eq p mode unknownMode argument hnext
    · simp only [hseparator, hprefix, and_false, if_false, Bool.false_eq_true, not_false_eq_true,
        or_true, if_true, true_and, and_assoc]
      split <;> rfl
  · simp only [Bool.not_true, Bool.false_eq_true, false_and, if_false, true_or, if_true,
      not_true_eq_false]
    rfl

/-! ### The loop -/

/-- The arguments that were written by `keep` begin `argv`, and those that are still to be read end
it, before the null pointer. -/
structure Layout (mode : FlagParsingMode) (written : List Arg) (stale : List (Option Arg))
    (unread : List Arg) (after : List (Option Arg)) (s : ParseState Arg Values) : Prop where
  argv : s.argv = written.map some ++ stale ++ unread.map some ++ none :: after
  input : s.input = written.length + stale.length
  output : mode = .removeFlags → s.output = written.length

variable {p : Parser Formatter Arg Values} {mode : FlagParsingMode}
  {unknownMode : UnknownFlagMode} {written unread : List Arg} {stale after : List (Option Arg)}
  {s s' : ParseState Arg Values}

/-- What is written of the arguments that are kept. -/
def moved (mode : FlagParsingMode) (arguments : List Arg) : List Arg :=
  if mode = .removeFlags then arguments else []

theorem moved_nil : moved mode ([] : List Arg) = [] := ite_self _

theorem moved_append (arguments arguments' : List Arg) :
    moved mode (arguments ++ arguments') = moved mode arguments ++ moved mode arguments' := by
  unfold moved
  split <;> rfl

/-- The argument that is `i` places after the next one. -/
theorem Layout.load (h : Layout mode written stale unread after s) (i : ℕ) :
    s.load (s.input + i) =
      match (unread.map some ++ none :: after).getD i none with
      | some argument => .ok argument
      | none => .error .nullArgument := by
  have hread : s.argv.getD (s.input + i) none =
      (unread.map some ++ none :: after).getD i none := by
    rw [h.argv, h.input, List.append_assoc, List.getD_append_right _ _ _ _ (by
      simp only [List.length_append, List.length_map]
      omega)]
    congr 1
    simp only [List.length_append, List.length_map]
    omega
  rw [ParseState.load, hread]

theorem Layout.load_input {argument : Arg} {rest : List Arg}
    (h : Layout mode written stale (argument :: rest) after s) :
    s.load s.input = .ok argument := h.load 0

theorem Layout.nextIs {argument : Arg} {rest : List Arg} {argc : ℕ}
    (h : Layout mode written stale (argument :: rest) after s)
    (hargc : argc = s.input + (argument :: rest).length) : NextIs s argc rest := by
  cases rest with
  | nil => exact Nat.le_of_eq hargc
  | cons next rest =>
    refine ⟨?_, h.load 1⟩
    simp only [List.length_cons] at hargc
    omega

/-- Arguments that are passed over become stale. -/
theorem Layout.skip {arguments rest : List Arg}
    (h : Layout mode written stale (arguments ++ rest) after s) :
    Layout mode written (stale ++ arguments.map some) rest after
      { s with input := s.input + arguments.length } := by
  refine ⟨?_, ?_, h.output⟩
  · simp only [h.argv, List.map_append, List.append_assoc]
  · simp only [h.input, List.length_append, List.length_map]
    omega

/-- An argument that is kept is written behind the others. -/
theorem Layout.keep {argument : Arg} {rest : List Arg}
    (h : Layout mode written stale (argument :: rest) after s) :
    ∃ stale', Layout mode (written ++ moved mode [argument]) stale' rest after
      { s.keep mode argument with input := s.input + 1 } := by
  by_cases hmode : mode = .removeFlags
  swap
  · rw [moved, if_neg hmode, List.append_nil, ParseState.keep, if_neg hmode]
    exact ⟨_, Layout.skip (List.singleton_append ▸ h)⟩
  obtain ⟨first, stale', hstale⟩ : ∃ first stale', stale ++ [some argument] = first :: stale' :=
    List.exists_cons_of_ne_nil (List.append_ne_nil_of_right_ne_nil _ (List.cons_ne_nil _ _))
  have hlength := congrArg List.length hstale
  simp only [List.length_append, List.length_cons, List.length_nil] at hlength
  have hargv : s.argv = written.map some ++ first ::
      (stale' ++ rest.map some ++ none :: after) := by
    rw [h.argv, List.map_cons, ← List.cons_append, ← List.cons_append, ← hstale]
    simp only [List.append_assoc, List.cons_append, List.nil_append]
  refine ⟨stale', ?_⟩
  rw [moved, if_pos hmode, ParseState.keep, if_pos hmode]
  refine ⟨?_, ?_, fun _ => ?_⟩
  · have houtput : s.output = (written.map some).length := by
      rw [h.output hmode, List.length_map]
    simp only [hargv, houtput, List.set_append_right _ _ (Nat.le_refl _), Nat.sub_self,
      List.set_cons_zero, List.map_append, List.map_cons, List.map_nil, List.append_assoc,
      List.cons_append, List.nil_append]
  · simp only [h.input, List.length_append, List.length_cons, List.length_nil]
    omega
  · simp only [h.output hmode, List.length_append, List.length_cons, List.length_nil]

/-- What a token does in a round. -/
structure Applied (p : Parser Formatter Arg Values) (mode : FlagParsingMode)
    (s : ParseState Arg Values) (token : Token Arg) (s' : ParseState Arg Values) : Prop where
  input : s'.input + 1 = s.input + token.arguments.length
  endOfFlags : s'.endOfFlags = (s.endOfFlags || token.isSeparator)
  argv : mode = .keepFlags → s'.argv = s.argv
  parsedFlags : s'.parsedFlags = s.parsedFlags + token.setting.toList.length
  values : token.setting.toList.foldlM p.set s.values = .ok s'.values

theorem keep_argv (argument : Arg) (h : mode = .keepFlags) :
    (s.keep mode argument).argv = s.argv := by
  rw [ParseState.keep, if_neg (by rw [h]; exact nofun)]

theorem keep_eq (mode : FlagParsingMode) (argument : Arg) :
    (s.keep mode argument).endOfFlags = s.endOfFlags ∧
    (s.keep mode argument).parsedFlags = s.parsedFlags ∧
    (s.keep mode argument).values = s.values ∧ (s.keep mode argument).input = s.input := by
  rw [ParseState.keep]
  split <;> exact ⟨rfl, rfl, rfl, rfl⟩

theorem applyToken_ok {token : Token Arg} {rest : List Arg}
    (h : Layout mode written stale (token.arguments ++ rest) after s)
    (hok : p.applyToken mode unknownMode s token = .ok s') :
    Applied p mode s token s' ∧ ∃ stale', Layout mode
      (written ++ moved mode (token.kept unknownMode)) stale' rest after
        { s' with input := s'.input + 1 } := by
  cases token with
  | separator argument =>
    have hend : Layout mode written stale (argument :: rest) after { s with endOfFlags := true } :=
      ⟨h.argv, h.input, h.output⟩
    simp only [applyToken, Except.ok.injEq] at hok
    subst hok
    rw [Token.kept]
    split
    · obtain ⟨hend', hparsed, hvalues, hinput⟩ :=
        keep_eq (s := { s with endOfFlags := true }) mode argument
      refine ⟨⟨congrArg (· + 1) hinput, ?_, keep_argv argument, hparsed, ?_⟩, ?_⟩
      · rw [hend']
        exact (Bool.or_true _).symm
      · rw [hvalues]
        rfl
      · rw [hinput]
        exact hend.keep
    · rw [moved_nil, List.append_nil]
      exact ⟨⟨rfl, (Bool.or_true _).symm, fun _ => rfl, rfl, rfl⟩, _,
        Layout.skip (List.singleton_append ▸ hend)⟩
  | word argument =>
    simp only [applyToken, Except.ok.injEq] at hok
    subst hok
    obtain ⟨hend', hparsed, hvalues, hinput⟩ := keep_eq (s := s) mode argument
    refine ⟨⟨congrArg (· + 1) hinput, ?_, keep_argv argument, hparsed, ?_⟩, ?_⟩
    · rw [hend']
      exact (Bool.or_false _).symm
    · rw [hvalues]
      rfl
    · rw [hinput]
      exact h.keep
  | assignment flag value argument next =>
    simp only [applyToken, assign] at hok
    rcases hset : p.setFromString flag value s.values with error | values <;>
      simp only [hset] at hok
    · cases hok
    cases hok
    refine ⟨⟨Nat.add_assoc s.input _ 1, (Bool.or_false _).symm, fun _ => rfl, rfl, ?_⟩,
      stale ++ (argument :: next.toList).map some, ?_⟩
    · simp only [Token.setting, Option.toList_some, List.foldlM_cons, List.foldlM_nil, set, hset]
      rfl
    · rw [Token.kept, moved_nil, List.append_nil]
      have := h.skip
      exact ⟨this.argv, (Nat.add_assoc s.input _ 1).trans this.input, h.output⟩

theorem applyToken_error {token : Token Arg} {exit : Exit}
    (h : p.applyToken mode unknownMode s token = .error exit) (values : Values) :
    token.setting.toList.foldlM p.set s.values ≠ .ok values := by
  cases token with
  | separator argument => cases h
  | word argument => cases h
  | assignment flag value argument next =>
    simp only [applyToken, assign] at h
    rcases hset : p.setFromString flag value s.values with error | values' <;>
      simp only [hset] at h
    · simp only [Token.setting, Option.toList_some, List.foldlM_cons, List.foldlM_nil, set, hset]
      exact nofun
    · cases h

/-- The arguments of a token are the next ones. -/
theorem readToken_arguments {endOfFlags : Bool} {argument : Arg} {rest : List Arg}
    {token : Token Arg} (h : p.readToken unknownMode endOfFlags argument rest = .ok token) :
    argument :: rest = token.arguments ++ rest.drop (token.arguments.length - 1) := by
  have hoption (hoption : p.readOption unknownMode argument rest = .ok token) :
      argument :: rest = token.arguments ++ rest.drop (token.arguments.length - 1) := by
    rcases hsplit : splitOption ((p.chars argument).text.drop 2) with ⟨name, inline⟩
    simp only [readOption, hsplit, bind, Except.bind, throw, throwThe, MonadExceptOf.throw, pure,
      Except.pure] at hoption
    split at hoption
    · cases hoption
    rcases hselect : selectFlag p.registry name with exit | _ | ⟨flag, negated⟩ <;>
      simp only [hselect] at hoption
    · cases hoption
    · split at hoption
      · cases hoption
        rfl
      · cases hoption
    rcases himplied : impliedValue name flag negated inline with exit | _ | value <;>
      simp only [himplied] at hoption
    · cases hoption
    · cases rest <;> cases hoption
      rfl
    · cases hoption
      rfl
  rw [readToken] at h
  split at h
  · cases h
    rfl
  split at h
  · cases h
    rfl
  split at h
  · exact hoption h
  split at h
  · cases h
  · cases h
    rfl

theorem readTokens_cons (endOfFlags : Bool) (argument : Arg) (rest : List Arg) :
    p.readTokens unknownMode endOfFlags (argument :: rest) =
      (p.readToken unknownMode endOfFlags argument rest).bind fun token =>
        (p.readTokens unknownMode (endOfFlags || token.isSeparator)
          (rest.drop (token.arguments.length - 1))).map (token :: ·) := by
  rw [readTokens]
  cases p.readToken unknownMode endOfFlags argument rest with
  | error exit => rfl
  | ok token =>
    simp only [bind, Except.bind]
    cases p.readTokens unknownMode (endOfFlags || token.isSeparator)
      (rest.drop (token.arguments.length - 1)) <;> rfl

/-- Together, the tokens spell all arguments. -/
theorem readTokens_arguments : ∀ (n : ℕ) (endOfFlags : Bool) (arguments : List Arg)
    {tokens : List (Token Arg)}, arguments.length ≤ n →
      p.readTokens unknownMode endOfFlags arguments = .ok tokens →
        tokens.flatMap Token.arguments = arguments
  | _, _, [], _, _, h => by
    rw [readTokens] at h
    cases h
    rfl
  | n + 1, endOfFlags, argument :: rest, tokens, hn, h => by
    rw [readTokens_cons] at h
    rcases htoken : p.readToken unknownMode endOfFlags argument rest with exit | token <;>
      simp only [htoken, Except.bind] at h
    · cases h
    rcases htokens : p.readTokens unknownMode (endOfFlags || token.isSeparator)
      (rest.drop (token.arguments.length - 1)) with exit | tokens' <;>
      simp only [htokens, Except.map] at h
    · cases h
    cases h
    have hshort : (rest.drop (token.arguments.length - 1)).length ≤ n := by
      simp only [List.length_cons, List.length_drop] at hn ⊢
      omega
    rw [List.flatMap_cons, readTokens_arguments n _ _ hshort htokens]
    exact (readToken_arguments htoken).symm

/-- The settings of the tokens. -/
def settings (tokens : List (Token Arg)) : List (FlagBase × Text) := tokens.filterMap Token.setting

theorem settings_cons (token : Token Arg) (tokens : List (Token Arg)) :
    settings (token :: tokens) = token.setting.toList ++ settings tokens := by
  rw [settings, settings, List.filterMap_cons]
  cases token.setting <;> rfl

/-- What is left in `argv` of the tokens. -/
def kept (unknownMode : UnknownFlagMode) (tokens : List (Token Arg)) : List Arg :=
  tokens.flatMap (Token.kept unknownMode)

/-- The arguments can be read, and the values result from the settings. -/
def Accepts (p : Parser Formatter Arg Values) (unknownMode : UnknownFlagMode) (endOfFlags : Bool)
    (arguments : List Arg) (values : Values) (tokens : List (Token Arg)) (values' : Values) :
    Prop :=
  p.readTokens unknownMode endOfFlags arguments = .ok tokens ∧
    (settings tokens).foldlM p.set values = .ok values'

/-- What the loop leaves. -/
structure Finished (mode : FlagParsingMode) (unknownMode : UnknownFlagMode) (written : List Arg)
    (after : List (Option Arg)) (tokens : List (Token Arg)) (values : Values)
    (s s' : ParseState Arg Values) : Prop where
  values : s'.values = values
  parsedFlags : s'.parsedFlags = s.parsedFlags + (settings tokens).length
  argv : mode = .keepFlags → s'.argv = s.argv
  layout : ∃ stale, Layout mode (written ++ moved mode (kept unknownMode tokens)) stale [] after s'

theorem accepts_cons {endOfFlags : Bool} {argument : Arg} {rest : List Arg} {values : Values}
    {token : Token Arg} (h : p.readToken unknownMode endOfFlags argument rest = .ok token)
    {tokens : List (Token Arg)} {values' : Values} :
    Accepts p unknownMode endOfFlags (argument :: rest) values tokens values' ↔
      ∃ tokens', tokens = token :: tokens' ∧ ∃ values₁,
        token.setting.toList.foldlM p.set values = .ok values₁ ∧
          Accepts p unknownMode (endOfFlags || token.isSeparator)
            (rest.drop (token.arguments.length - 1)) values₁ tokens' values' := by
  rw [Accepts, readTokens_cons, h]
  simp only [Except.bind]
  cases htokens : p.readTokens unknownMode (endOfFlags || token.isSeparator)
    (rest.drop (token.arguments.length - 1)) with
  | error exit => simp [Except.map, Accepts, htokens]
  | ok tokens' =>
    simp only [Except.map, Except.ok.injEq, Accepts, htokens]
    constructor
    · rintro ⟨rfl, hset⟩
      rw [settings_cons, List.foldlM_append] at hset
      cases hfirst : token.setting.toList.foldlM p.set values with
      | error error =>
        rw [hfirst] at hset
        cases hset
      | ok values₁ =>
        rw [hfirst] at hset
        exact ⟨tokens', rfl, values₁, rfl, rfl, hset⟩
    · rintro ⟨_, rfl, values₁, hfirst, rfl, hset⟩
      refine ⟨rfl, ?_⟩
      rw [settings_cons, List.foldlM_append, hfirst]
      exact hset

/-- The loop accepts the arguments that can be read and set, and leaves what they say. The induction
is on the number of rounds. -/
theorem parseLoop_spec (p : Parser Formatter Arg Values) (unknownMode : UnknownFlagMode)
    {argc : ℕ} : ∀ (rounds : ℕ) {unread written : List Arg}
    {stale : List (Option Arg)} {s : ParseState Arg Values},
    Layout mode written stale unread after s → argc = s.input + unread.length →
      unread.length ≤ rounds →
        (∃ tokens values s', Accepts p unknownMode s.endOfFlags unread s.values tokens values ∧
          p.parseLoop mode unknownMode argc rounds s = .ok s' ∧
          Finished mode unknownMode written after tokens values s s') ∨
        ((∀ tokens values, ¬Accepts p unknownMode s.endOfFlags unread s.values tokens values) ∧
          ∃ exit, p.parseLoop mode unknownMode argc rounds s = .error exit) := by
  intro rounds
  induction rounds with
  | zero =>
    intro unread written stale s hlayout hargc hrounds
    obtain rfl := List.eq_nil_of_length_eq_zero (Nat.le_zero.mp hrounds)
    refine .inl ⟨[], s.values, s, ⟨by rw [readTokens], rfl⟩, rfl, rfl, rfl, fun _ => rfl, stale, ?_⟩
    rwa [kept, List.flatMap_nil, moved_nil, List.append_nil]
  | succ rounds ih =>
    intro unread written stale s hlayout hargc hrounds
    rw [parseLoop]
    rcases unread with _ | ⟨argument, rest⟩
    · rw [if_neg (by rw [hargc]; exact Nat.lt_irrefl _)]
      refine .inl ⟨[], s.values, s, ⟨by rw [readTokens], rfl⟩, rfl, rfl, rfl,
        fun _ => rfl, stale, ?_⟩
      rwa [kept, List.flatMap_nil, moved_nil, List.append_nil]
    have hlt : s.input < argc := by
      rw [List.length_cons] at hargc
      omega
    rw [if_pos hlt, parseArgument_eq p mode unknownMode hlayout.load_input (hlayout.nextIs hargc)]
    rcases htoken : p.readToken unknownMode s.endOfFlags argument rest with exit | token
    · refine .inr ⟨fun tokens values haccepts => ?_, exit, rfl⟩
      rw [Accepts, readTokens_cons, htoken] at haccepts
      cases haccepts.1
    have harguments := readToken_arguments htoken
    rw [harguments] at hlayout
    rcases happly : p.applyToken mode unknownMode s token with exit | s₁
    · refine .inr ⟨fun tokens values haccepts => ?_, exit, by simp only [Except.bind, happly]; rfl⟩
      obtain ⟨tokens', -, values', hvalues, -⟩ := (accepts_cons htoken).mp haccepts
      exact applyToken_error happly values' hvalues
    obtain ⟨happlied, stale', hlayout'⟩ := applyToken_ok hlayout happly
    have hinput := happlied.input
    have hpos := token.length_arguments_pos
    have hlength := congrArg List.length harguments
    rw [List.length_append, List.length_cons] at hlength
    rw [List.length_cons] at hargc hrounds
    have hloop : ((Except.ok token).bind (p.applyToken mode unknownMode s) >>= fun s =>
        p.parseLoop mode unknownMode argc rounds { s with input := s.input + 1 }) =
          p.parseLoop mode unknownMode argc rounds { s₁ with input := s₁.input + 1 } := by
      simp only [Except.bind, happly]
      rfl
    rw [hloop]
    rcases ih hlayout' (by dsimp only; omega) (by omega) with
      ⟨tokens, values, s', haccepts, hrun, hfinished⟩ | ⟨hrejects, hexit⟩
    · left
      rw [happlied.endOfFlags] at haccepts
      obtain ⟨stale'', hfinal⟩ := hfinished.layout
      refine ⟨token :: tokens, values, s', (accepts_cons htoken).mpr
        ⟨tokens, rfl, s₁.values, happlied.values, haccepts⟩, hrun, hfinished.values, ?_,
        ?_, stale'', ?_⟩
      · rw [hfinished.parsedFlags, settings_cons, List.length_append, ← Nat.add_assoc,
          ← happlied.parsedFlags]
      · exact fun hmode => (hfinished.argv hmode).trans (happlied.argv hmode)
      · rwa [kept, List.flatMap_cons, moved_append, ← List.append_assoc]
    · right
      refine ⟨fun tokens values haccepts => ?_, hexit⟩
      obtain ⟨tokens', -, values₁, hvalues, hrest⟩ := (accepts_cons htoken).mp haccepts
      rw [happlied.values] at hvalues
      obtain rfl := Except.ok.inj hvalues
      rw [← happlied.endOfFlags] at hrest
      exact hrejects tokens' values hrest

/-- What the function leaves in `argv` when it removes flags. -/
theorem set_null (written stale after : List (Option Arg)) :
    ∃ rest, (written ++ stale ++ none :: after).set written.length none =
      written ++ none :: rest := by
  cases stale with
  | nil =>
    refine ⟨after, ?_⟩
    rw [List.append_nil, List.set_append_right _ _ (Nat.le_refl _), Nat.sub_self,
      List.set_cons_zero]
  | cons first stale =>
    refine ⟨stale ++ none :: after, ?_⟩
    rw [List.append_assoc, List.set_append_right _ _ (Nat.le_refl _), Nat.sub_self,
      List.cons_append, List.set_cons_zero]

/-- For every registry and every command line: either neither mode returns, and then the arguments
cannot be read or a value cannot be set; or both do. Then the tokens spell the arguments, the values
are those set by the tokens from left to right, and the result is the number of settings. If flags
are removed, `argv` is left with the arguments that belong to no setting, in order, and `argc` is
their number; otherwise both are left alone. -/
theorem parseCommandLineFlags_spec (p : Parser Formatter Arg Values) (unknownMode : UnknownFlagMode)
    (program : Arg) (arguments : List Arg) (after : List (Option Arg)) (values : Values) :
    let argv := (program :: arguments).map some ++ none :: after
    let argc := (program :: arguments).length
    (∃ tokens values', tokens.flatMap Token.arguments = arguments ∧
        p.readTokens unknownMode false arguments = .ok tokens ∧
        (settings tokens).foldlM p.set values = .ok values' ∧
        p.parseCommandLineFlags .keepFlags unknownMode argc argv values =
          .ok ⟨argc, argv, (settings tokens).length, values'⟩ ∧
        ∃ rest, p.parseCommandLineFlags .removeFlags unknownMode argc argv values =
          .ok ⟨(program :: kept unknownMode tokens).length,
            (program :: kept unknownMode tokens).map some ++ none :: rest,
            (settings tokens).length, values'⟩) ∨
      ((∀ tokens values', ¬Accepts p unknownMode false arguments values tokens values') ∧
        ∀ mode, ∃ exit, p.parseCommandLineFlags mode unknownMode argc argv values =
          .error exit) := by
  intro argv argc
  let s : ParseState Arg Values := ⟨argv, 1, 1, false, 0, values⟩
  have hlayout (mode : FlagParsingMode) : Layout mode [program] [] arguments after s :=
    ⟨rfl, rfl, fun _ => rfl⟩
  have hloop (mode : FlagParsingMode) := parseLoop_spec p unknownMode argc (hlayout mode)
    (show argc = 1 + arguments.length from Nat.add_comm _ _) (Nat.le_succ _)
  rcases hloop .keepFlags with ⟨tokens, values', s₁, haccepts, hkeep, hkept⟩ |
    ⟨hrejects, exit, hkeep⟩
  · left
    rcases hloop .removeFlags with ⟨tokens₂, values₂, s₂, haccepts₂, hremove, hremoved⟩ |
      ⟨hrejects, -⟩
    swap
    · exact absurd haccepts (hrejects tokens values')
    obtain rfl : tokens = tokens₂ := Except.ok.inj (haccepts.1.symm.trans haccepts₂.1)
    obtain rfl : values' = values₂ := Except.ok.inj (haccepts.2.symm.trans haccepts₂.2)
    refine ⟨tokens, values', readTokens_arguments _ _ _ (Nat.le_refl _) haccepts.1, haccepts.1,
      haccepts.2, ?_, ?_⟩
    · rw [parseCommandLineFlags, hkeep]
      have hparsed := hkept.parsedFlags
      rw [show s.parsedFlags = 0 from rfl, Nat.zero_add] at hparsed
      simp only [bind, Except.bind, reduceCtorEq, if_false, pure, Except.pure, hparsed,
        hkept.values, hkept.argv rfl]
      rfl
    · obtain ⟨stale, hfinal⟩ := hremoved.layout
      have houtput := hfinal.output rfl
      have hargv := hfinal.argv
      have hparsed := hremoved.parsedFlags
      rw [show s.parsedFlags = 0 from rfl, Nat.zero_add] at hparsed
      rw [moved, if_pos rfl, List.singleton_append] at houtput hargv
      rw [List.map_nil, List.append_nil] at hargv
      obtain ⟨rest, hset⟩ := set_null ((program :: kept unknownMode tokens).map some) stale after
      rw [List.length_map] at hset
      refine ⟨rest, ?_⟩
      rw [parseCommandLineFlags, hremove]
      simp only [bind, Except.bind, if_true, pure, Except.pure, hparsed, hremoved.values, houtput,
        hargv, hset]
  · right
    refine ⟨hrejects, fun mode => ?_⟩
    rcases hloop mode with ⟨tokens, values', -, haccepts, -⟩ | ⟨-, exit, hexit⟩
    · exact absurd haccepts (hrejects tokens values')
    · exact ⟨exit, by rw [parseCommandLineFlags, hexit]; rfl⟩

/-- A program with a number and a switch, which collects what is set. -/
def switchParser : Parser Unit CString (List (Text × Text)) where
  registry := { Registry.empty with
    flags := Function.update (Function.update (fun _ => none)
      (bytes "level") (some ⟨0, bytes "level", bytes "int32", bytes "program.cc"⟩))
      (bytes "color") (some ⟨1, bytes "color", boolTypeName, bytes "program.cc"⟩) }
  flagNames := [bytes "color", bytes "level"]
  sizeMax := 18446744073709551615
  chars := id
  setFromString flag value values := .ok (values ++ [(flag.name, value)])

/-- `program --level=1 file --nocolor --level 2 --color -- --level`. -/
example :
    let program : CString := .ofString "program"
    let file : CString := .ofString "file"
    let level : CString := .ofString "--level"
    let separator : CString := .ofString "--"
    switchParser.parseCommandLineFlags .removeFlags .ignore 9
        [some program, some (.ofString "--level=1"), some file, some (.ofString "--nocolor"),
          some level, some (.ofString "2"), some (.ofString "--color"), some separator, some level,
          none] [] =
      .ok ⟨4, [some program, some file, some separator, some level, none, some (.ofString "2"),
          some (.ofString "--color"), some separator, some level, none], 4,
        [(bytes "level", bytes "1"), (bytes "color", bytes "false"), (bytes "level", bytes "2"),
          (bytes "color", bytes "true")]⟩ := rfl

end Parser

end Flags

end NgLog
