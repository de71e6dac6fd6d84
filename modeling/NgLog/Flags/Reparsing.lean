import NgLog.Flags.CommandLine

/-!
# Parsing the remaining arguments again

In the mode for programs with a parser of their own, `ParseCommandLineFlags` leaves the arguments
that it does not know, and the separator. What it has removed brings arguments next to each other
that were apart before. Still none of them is read as anything else: an argument that is left has
been read without the ones behind it, and the separator is the first one in what remains too.

## Main results

* `readTokens_kept` — the arguments that are left mean what they meant before
* `parseLoop_settled` — the loop leaves `argv` alone if all arguments are kept
* `parseCommandLineFlags_again` — parsing again changes nothing
-/

namespace NgLog

namespace Flags

namespace Parser

variable {Formatter Arg Values : Type} {p : Parser Formatter Arg Values}

/-! ### What is left, read again -/

/-- An option that sets no flag is read without the arguments behind it. -/
theorem readOption_of_kept {argument : Arg} {rest : List Arg} {token : Token Arg}
    (h : p.readOption .ignore argument rest = .ok token) (hsetting : token.setting = none) :
    token = .word argument ∧ ∀ rest', p.readOption .ignore argument rest' = .ok
      (.word argument) := by
  rcases hsplit : splitOption ((p.chars argument).text.drop 2) with ⟨name, inline⟩
  simp only [readOption, hsplit, bind, Except.bind, throw, throwThe, MonadExceptOf.throw, pure,
    Except.pure] at h ⊢
  by_cases hhelp : name = kBuiltinHelpName
  · rw [if_pos hhelp] at h
    cases h
  simp only [if_neg hhelp] at h ⊢
  rcases hselect : selectFlag p.registry name with exit | _ | ⟨flag, negated⟩ <;>
    simp only [hselect] at h ⊢
  · cases h
  · cases h
    exact ⟨rfl, fun _ => rfl⟩
  rcases himplied : impliedValue name flag negated inline with exit | _ | value <;>
    simp only [himplied] at h
  · cases h
  · cases rest <;> cases h
    cases hsetting
  · cases h
    cases hsetting

/-- An argument that sets no flag is read without those behind it, and kept. -/
theorem readToken_of_kept {endOfFlags : Bool} {argument : Arg} {rest : List Arg} {token : Token Arg}
    (h : p.readToken .ignore endOfFlags argument rest = .ok token)
    (hsetting : token.setting = none) :
    token.kept .ignore = [argument] ∧ token.arguments = [argument] ∧
      ∀ rest', p.readToken .ignore endOfFlags argument rest' = .ok token := by
  simp only [readToken] at h ⊢
  by_cases hend : endOfFlags
  · simp only [if_pos hend] at h ⊢
    cases h
    exact ⟨rfl, rfl, fun _ => rfl⟩
  by_cases hseparator : (p.chars argument).text = bytes "--"
  · simp only [if_neg hend, if_pos hseparator] at h ⊢
    cases h
    exact ⟨rfl, rfl, fun _ => rfl⟩
  by_cases hprefix : bytes "--" <+: (p.chars argument).text
  · simp only [if_neg hend, if_neg hseparator, if_pos hprefix] at h ⊢
    obtain ⟨rfl, hagain⟩ := readOption_of_kept h hsetting
    exact ⟨rfl, rfl, hagain⟩
  · simp only [if_neg hend, if_neg hseparator, if_neg hprefix, reduceCtorEq, and_false,
      if_false] at h ⊢
    cases h
    exact ⟨rfl, rfl, fun _ => rfl⟩

/-- A token that sets a flag leaves nothing, and does not end the options. -/
theorem kept_of_setting {token : Token Arg} {setting : FlagBase × Text}
    (h : token.setting = some setting) : token.kept .ignore = [] ∧ token.isSeparator = false := by
  cases token with
  | separator argument => cases h
  | word argument => cases h
  | assignment flag value argument next => exact ⟨rfl, rfl⟩

/-- The arguments that are left are read as the tokens that set no flag. The induction is on a bound
of the number of arguments, as a token may take two of them. -/
theorem readTokens_kept (n : ℕ) (endOfFlags : Bool) (arguments : List Arg)
    {tokens : List (Token Arg)} (hn : arguments.length ≤ n)
    (h : p.readTokens .ignore endOfFlags arguments = .ok tokens) :
    p.readTokens .ignore endOfFlags (kept .ignore tokens) =
      .ok (tokens.filter fun token => token.setting.isNone) := by
  induction n generalizing endOfFlags arguments tokens with
  | zero =>
    obtain rfl := List.eq_nil_of_length_eq_zero (Nat.le_zero.mp hn)
    rw [readTokens] at h
    cases h
    exact readTokens.eq_1 ..
  | succ n ih =>
    cases arguments with
    | nil =>
      rw [readTokens] at h
      cases h
      exact readTokens.eq_1 ..
    | cons argument rest =>
      rw [readTokens_cons] at h
      rcases htoken : p.readToken .ignore endOfFlags argument rest with exit | token <;>
        simp only [htoken, Except.bind] at h
      · cases h
      rcases htokens : p.readTokens .ignore (endOfFlags || token.isSeparator)
        (rest.drop (token.arguments.length - 1)) with exit | tokens' <;>
        simp only [htokens, Except.map] at h
      · cases h
      cases h
      have hshort : (rest.drop (token.arguments.length - 1)).length ≤ n := by
        simp only [List.length_cons, List.length_drop] at hn ⊢
        omega
      have hrest := ih _ _ hshort htokens
      rw [kept, List.flatMap_cons]
      cases hsetting : token.setting with
      | none =>
        obtain ⟨hkept, hone, hagain⟩ := readToken_of_kept htoken hsetting
        rw [hkept, List.singleton_append, readTokens_cons, hagain,
          List.filter_cons_of_pos (by rw [hsetting]; rfl)]
        simp only [Except.bind, hone, List.length_singleton, Nat.sub_self, List.drop_zero]
        rw [← kept, hrest]
        rfl
      | some setting =>
        obtain ⟨hkept, hseparator⟩ := kept_of_setting hsetting
        rw [hseparator, Bool.or_false] at hrest
        rw [hkept, List.nil_append,
          List.filter_cons_of_neg (by rw [hsetting]; exact Bool.false_ne_true)]
        exact hrest

/-! ### The loop when all arguments are kept -/

variable {after : List (Option Arg)}

/-- An argument that is written to its own place changes nothing. -/
theorem keep_self {written rest : List Arg} {argument : Arg} {s : ParseState Arg Values}
    (h : Layout .removeFlags written [] (argument :: rest) after s) :
    s.keep .removeFlags argument = { s with output := s.output + 1 } := by
  have hargv : s.argv = written.map some ++ some argument :: (rest.map some ++ none :: after) := by
    simpa using h.argv
  have hset : s.argv.set s.output (some argument) = s.argv := by
    rw [h.output rfl, hargv, List.set_append_right _ _ (Nat.le_of_eq (List.length_map _)),
      List.length_map,
      Nat.sub_self, List.set_cons_zero]
  rw [ParseState.keep, if_pos rfl, hset]

/-- What a token that sets no flag does to the variables, if nothing has been removed yet. -/
theorem applyToken_settled {written rest : List Arg} {argument : Arg} {s : ParseState Arg Values}
    (h : Layout .removeFlags written [] (argument :: rest) after s) {token : Token Arg}
    (hsetting : token.setting = none) (hkept : token.kept .ignore = [argument]) :
    p.applyToken .removeFlags .ignore s token = .ok { s with
      output := s.output + 1
      endOfFlags := s.endOfFlags || token.isSeparator } := by
  cases token with
  | separator argument' =>
    obtain rfl : argument' = argument := List.singleton_inj.mp hkept
    have hend : Layout .removeFlags written [] (argument' :: rest) after
        { s with endOfFlags := true } := ⟨h.argv, h.input, h.output⟩
    rw [applyToken, if_pos rfl, keep_self hend, Token.isSeparator, Bool.or_true]
  | word argument' =>
    obtain rfl : argument' = argument := List.singleton_inj.mp hkept
    rw [applyToken, keep_self h]
    simp only [Token.isSeparator, Bool.or_false]
  | assignment flag value argument' next => cases hsetting

/-- If no token sets a flag, the loop leaves `argv` alone and counts its arguments. The induction is
on the number of rounds. -/
theorem parseLoop_settled {argc : ℕ} : ∀ (rounds : ℕ) {unread written : List Arg}
    {tokens : List (Token Arg)} {s : ParseState Arg Values},
    Layout .removeFlags written [] unread after s → argc = s.input + unread.length →
      unread.length ≤ rounds → p.readTokens .ignore s.endOfFlags unread = .ok tokens →
        (∀ token ∈ tokens, token.setting = none) →
          ∃ s', p.parseLoop .removeFlags .ignore argc rounds s = .ok s' ∧ s'.argv = s.argv ∧
            s'.output = argc ∧ s'.parsedFlags = s.parsedFlags ∧ s'.values = s.values := by
  intro rounds
  induction rounds with
  | zero =>
    intro unread written tokens s hlayout hargc hrounds hread hsettings
    obtain rfl := List.eq_nil_of_length_eq_zero (Nat.le_zero.mp hrounds)
    refine ⟨s, rfl, rfl, ?_, rfl, rfl⟩
    rw [hargc, hlayout.output rfl, hlayout.input]
    rfl
  | succ rounds ih =>
    intro unread written tokens s hlayout hargc hrounds hread hsettings
    rw [parseLoop]
    rcases unread with _ | ⟨argument, rest⟩
    · rw [if_neg (by rw [hargc]; exact Nat.lt_irrefl _)]
      refine ⟨s, rfl, rfl, ?_, rfl, rfl⟩
      rw [hargc, hlayout.output rfl, hlayout.input]
      rfl
    rw [List.length_cons] at hrounds
    have hlt : s.input < argc := by
      rw [List.length_cons] at hargc
      omega
    rw [if_pos hlt, parseArgument_eq p .removeFlags .ignore hlayout.load_input
      (hlayout.nextIs hargc)]
    rw [readTokens_cons] at hread
    rcases htoken : p.readToken .ignore s.endOfFlags argument rest with exit | token <;>
      simp only [htoken, Except.bind] at hread ⊢
    · cases hread
    rcases htokens : p.readTokens .ignore (s.endOfFlags || token.isSeparator)
      (rest.drop (token.arguments.length - 1)) with exit | tokens' <;>
      simp only [htokens, Except.map] at hread
    · cases hread
    cases hread
    obtain ⟨hsetting, hsettings⟩ := List.forall_mem_cons.mp hsettings
    obtain ⟨hkept, hone, -⟩ := readToken_of_kept htoken hsetting
    rw [hone, List.length_singleton, Nat.sub_self, List.drop_zero] at htokens
    rw [applyToken_settled hlayout hsetting hkept]
    have hlayout' : Layout .removeFlags (written ++ [argument]) [] rest after { s with
        input := s.input + 1
        output := s.output + 1
        endOfFlags := s.endOfFlags || token.isSeparator } := by
      refine ⟨?_, ?_, fun _ => ?_⟩
      · simpa using hlayout.argv
      · simpa using hlayout.input
      · simpa using hlayout.output rfl
    obtain ⟨s', hloop, hargv, houtput, hparsed, hvalues⟩ := ih hlayout' (by
      rw [hargc, List.length_cons]
      dsimp only
      omega) (Nat.le_of_succ_le_succ hrounds) htokens hsettings
    exact ⟨s', hloop, hargv, houtput, hparsed, hvalues⟩

/-! ### Parsing again -/

/-- For every registry and all arguments: if the function succeeds in the mode that leaves unknown
options to others and removes its own, then it succeeds again with what it has left, finds no flag,
sets no value and leaves `argc` and `argv` as they are. -/
theorem parseCommandLineFlags_again (p : Parser Formatter Arg Values) {arguments : List Arg}
    {after : List (Option Arg)} {values : Values} {result : ParseResult Arg Values}
    (h : p.parseCommandLineFlags .removeFlags .ignore arguments.length
      (arguments.map some ++ none :: after) values = .ok result) (values' : Values) :
    p.parseCommandLineFlags .removeFlags .ignore result.argc result.argv values' =
      .ok ⟨result.argc, result.argv, 0, values'⟩ := by
  cases arguments with
  | nil =>
    cases h
    rw [parseCommandLineFlags, parseLoop, if_neg (Nat.lt_irrefl _)]
    simp only [List.map_nil, bind, Except.bind, pure, Except.pure, if_true,
      List.set_set]
  | cons program arguments =>
    let s : ParseState Arg Values :=
      ⟨(program :: arguments).map some ++ none :: after, 1, 1, false, 0, values⟩
    have hlayout : Layout .removeFlags [program] [] arguments after s := ⟨rfl, rfl, fun _ => rfl⟩
    have hargc : (program :: arguments).length = s.input + arguments.length := Nat.add_comm ..
    rcases parseLoop_spec p .ignore (program :: arguments).length hlayout hargc
      (Nat.le_succ _) with ⟨tokens, values₁, s₁, haccepts, hloop, hfinished⟩ | ⟨-, exit, hexit⟩
    swap
    · rw [parseCommandLineFlags, hexit] at h
      cases h
    obtain ⟨stale, hfinal⟩ := hfinished.layout
    have houtput := hfinal.output rfl
    have hargv := hfinal.argv
    rw [moved, if_pos rfl, List.singleton_append] at houtput hargv
    rw [List.map_nil, List.append_nil] at hargv
    obtain ⟨rest, hset⟩ := set_null ((program :: kept .ignore tokens).map some) stale after
    rw [List.length_map] at hset
    rw [parseCommandLineFlags, hloop] at h
    simp only [bind, Except.bind, if_true, pure, Except.pure, houtput, hargv, hset] at h
    cases h
    -- the second pass begins with what is left, and has removed nothing
    let t : ParseState Arg Values :=
      ⟨(program :: kept .ignore tokens).map some ++ none :: rest, 1, 1, false, 0, values'⟩
    have hlayout' : Layout .removeFlags [program] [] (kept .ignore tokens) rest t :=
      ⟨rfl, rfl, fun _ => rfl⟩
    have hargc' : (program :: kept .ignore tokens).length = t.input +
        (kept .ignore tokens).length :=
      Nat.add_comm ..
    obtain ⟨t₁, hloop', hargv', houtput', hparsed', hvalues'⟩ := parseLoop_settled
      (program :: kept .ignore tokens).length hlayout' hargc' (Nat.le_succ _)
      (readTokens_kept _ _ _ (Nat.le_refl _) haccepts.1)
      fun token htoken => Option.isNone_iff_eq_none.mp (List.mem_filter.mp htoken).2
    have hnull : t.argv.set (program :: kept .ignore tokens).length none = t.argv := by
      rw [← List.length_map some, List.set_append_right _ _ (Nat.le_refl _), Nat.sub_self,
        List.set_cons_zero]
    rw [parseCommandLineFlags, hloop']
    simp only [bind, Except.bind, if_true, pure, Except.pure, hargv', houtput', hparsed', hvalues',
      hnull]
    rfl

/-- A program with one flag, which collects its values. -/
def levelParser : Parser Unit CString (List Text) where
  registry := { Registry.empty with
    flags := Function.update (fun _ => none) (bytes "level")
      (some ⟨0, bytes "level", bytes "int32", bytes "program.cc"⟩) }
  flagNames := [bytes "level"]
  sizeMax := 18446744073709551615
  chars := id
  setFromString _ value values := .ok (values ++ [value])

/-- What is left of `program --level 1 --other -- --help`. -/
def levelRest : List (Option CString) :=
  [some (.ofString "program"), some (.ofString "--other"), some (.ofString "--"),
    some (.ofString "--help"), none, some (.ofString "--help"), none]

theorem parseCommandLineFlags_again_level :
    levelParser.parseCommandLineFlags .removeFlags .ignore 4 levelRest [bytes "1"] =
      .ok ⟨4, levelRest, 0, [bytes "1"]⟩ := by
  let arguments : List CString := [.ofString "program", .ofString "--level", .ofString "1",
    .ofString "--other", .ofString "--", .ofString "--help"]
  have h : levelParser.parseCommandLineFlags .removeFlags .ignore arguments.length
      (arguments.map some ++ none :: []) [] = .ok ⟨4, levelRest, 1, [bytes "1"]⟩ := rfl
  exact parseCommandLineFlags_again levelParser h [bytes "1"]

end Parser

end Flags

end NgLog
