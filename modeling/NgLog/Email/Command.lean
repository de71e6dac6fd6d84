import Mathlib.Data.List.TakeWhile
import NgLog.Support.CommandLine
import NgLog.Support.ShellWords

/-!
# The command that sends an e-mail

`SendEmailInternal` hands one line to the shell: the mailer, `-s` with the subject, and the
destination. `ShellEscape` quotes each of them, in one of three ways. On Windows, where
`QuoteWindowsArgument` is used instead, the C runtime of the mailer splits the line, and a run of
backslashes before a quote is read as half as many: the function writes only one more.

## Main definitions

* `quoteWindowsArgument` — `QuoteWindowsArgument`
* `shellEscape`, `command` — `ShellEscape` and the line, on other systems

## Main results

* `arguments_quoteWindowsArgument_iff` — when the C runtime reads the argument back
* `tokens_command` — the shell finds three words, with nothing left to expand
-/

namespace NgLog

namespace Email

/-! ### Windows -/

/-- The characters that mean something to the C runtime. -/
def runtimeSpecials : CommandLine.Specials Byte where
  quote := 34
  backslash := 92
  blank c := c = 32 ∨ c = 9
  quote_ne_backslash := by decide
  blank_quote := rfl
  blank_backslash := rfl

/-- `QuoteWindowsArgument`. A run of backslashes is written as it is before any character, with
another one if this is a quote, and twice at the end. -/
def quoteWindowsArgument (src : List Byte) : List Byte :=
  runtimeSpecials.quote ::
    CommandLine.quoteWith runtimeSpecials (fun backslashes => backslashes + 1) 0 src

/-- The C runtime reads the argument back if and only if no quote in it is directly behind a
backslash. -/
theorem arguments_quoteWindowsArgument_iff (src : List Byte) :
    CommandLine.arguments runtimeSpecials false (quoteWindowsArgument src) = [src] ↔
      ¬bytes "\\\"" <:+: src := by
  rw [quoteWindowsArgument, CommandLine.arguments_quoteWith_iff rfl fun n => by omega]
  exact CommandLine.doubles_succ_iff src

/-- A quote behind a backslash closes the argument, and what comes behind it becomes another one,
whether or not the runtime takes a pair of quotes for a literal one. -/
theorem quoteWindowsArgument_breaks :
    ¬∀ src : List Byte,
      CommandLine.arguments runtimeSpecials false (quoteWindowsArgument src) = [src] := by
  intro h
  exact absurd (h (bytes "\\\" x")) (by decide)

example (pairs : Bool) :
    CommandLine.arguments runtimeSpecials pairs (quoteWindowsArgument (bytes "\\\" -x")) =
      [bytes "\\", bytes "-x"] := by
  cases pairs <;> decide

/-! ### The shell -/

/-- `kDontNeedShellEscapeChars`. -/
def kDontNeedShellEscapeChars : List Byte :=
  bytes "ABCDEFGHIJKLMNOPQRSTUVWXYZabcdefghijklmnopqrstuvwxyz0123456789+-_.=/:,@"

/-- `ShellEscape`, other than on Windows. -/
def shellEscape (src : List Byte) : List Byte :=
  if ¬src.isEmpty ∧ src.all fun c => c ∈ kDontNeedShellEscapeChars then src
  else if 39 ∉ src then bytes "'" ++ src ++ bytes "'"
  else
    bytes "\"" ++ (src.flatMap fun c => if c ∈ bytes "\\$\"`" then bytes "\\" ++ [c] else [c]) ++
      bytes "\""

/-- `ShellEscapeExecutable`, other than on Windows. -/
def shellEscapeExecutable (src : List Byte) : List Byte := shellEscape src

/-- The command line of `SendEmailInternal`, other than on Windows. -/
def command (mailer subject dest : List Byte) : List Byte :=
  let logmailer := if mailer.isEmpty then bytes "/bin/mail" else shellEscapeExecutable mailer
  logmailer ++ bytes " -s" ++ shellEscape subject ++ bytes " " ++ shellEscape dest

/-- `popen` passes the bytes before the first NUL to the shell. -/
def shellTokens (cmd : List Byte) : Option (List Shell.Token) :=
  Shell.tokens (cmd.takeWhile (· ≠ 0))

open Shell

theorem isPlain_of_mem {c : Byte} (h : c ∈ kDontNeedShellEscapeChars) : isPlain c = true := by
  have hall : kDontNeedShellEscapeChars.all isPlain = true := by decide +kernel
  exact List.all_eq_true.mp hall c h

theorem inert_of_mem {text : List Byte} (h : ∀ c ∈ text, c ∈ kDontNeedShellEscapeChars) :
    Word.Inert (text.map (⟨·, false⟩)) := by
  have hall : kDontNeedShellEscapeChars.all (· ∉ bytes "~*?[") = true := by decide +kernel
  intro letter hletter _
  obtain ⟨c, hc, rfl⟩ := List.mem_map.mp hletter
  exact of_decide_eq_true (List.all_eq_true.mp hall c (h c hc))

/-- The piece of a command is the text, as a part of a word in which nothing is open to
expansion. -/
def Quotes (piece text : List Byte) : Prop :=
  ∃ letters : Word, Contributes piece letters ∧ letters.removeQuotes = text ∧ letters.Inert

theorem Quotes.append {piece piece' text text' : List Byte} (h : Quotes piece text)
    (h' : Quotes piece' text') : Quotes (piece ++ piece') (text ++ text') := by
  obtain ⟨letters, hpiece, rfl, hinert⟩ := h
  obtain ⟨letters', hpiece', rfl, hinert'⟩ := h'
  refine ⟨letters ++ letters', hpiece.append hpiece', List.map_append, fun letter hmem => ?_⟩
  exact (List.mem_append.mp hmem).elim (hinert letter) (hinert' letter)

theorem quotes_plain {text : List Byte} (hne : text ≠ [])
    (h : ∀ c ∈ text, c ∈ kDontNeedShellEscapeChars) : Quotes text text :=
  ⟨text.map (⟨·, false⟩),
    contributes_plain hne (List.all_eq_true.mpr fun c hc => isPlain_of_mem (h c hc)),
    removeQuotes_map text false, inert_of_mem h⟩

theorem mem_escapes_iff (c : Byte) : c ∈ bytes "\\$\"`" ↔ escapable c = true := by
  rw [escapable, decide_eq_true_eq, startsExpansion, decide_eq_true_eq]
  show c ∈ [92, 36, 34, 96] ↔ (c = 36 ∨ c = 96) ∨ c = 34 ∨ c = 92
  simp only [List.mem_cons, List.not_mem_nil, or_false]
  tauto

/-- Each of the three ways quotes the string. -/
theorem quotes_shellEscape (src : List Byte) : Quotes (shellEscape src) src := by
  rw [shellEscape]
  split
  · rename_i hplain
    exact quotes_plain (by simpa using hplain.1) fun c hc =>
      of_decide_eq_true (List.all_eq_true.mp hplain.2 c hc)
  · split
    · rename_i hquote
      exact ⟨_, contributes_single hquote, removeQuotes_map src true, inert_quoted src⟩
    · have hescape : (src.flatMap fun c => if c ∈ bytes "\\$\"`" then bytes "\\" ++ [c] else [c]) =
          escapeDouble src := by
        rw [escapeDouble]
        congr 1
        funext c
        simp only [mem_escapes_iff]
        rfl
      rw [hescape]
      exact ⟨_, contributes_double src, removeQuotes_map src true, inert_quoted src⟩

/-- Nothing that is written is a NUL. -/
theorem zero_not_mem_shellEscape {src : List Byte} (h : 0 ∉ src) : 0 ∉ shellEscape src := by
  rw [shellEscape]
  split
  · exact h
  · split
    · have hquote : 0 ∉ bytes "'" := by decide
      simp only [List.mem_append, not_or]
      exact ⟨⟨hquote, h⟩, hquote⟩
    · simp only [List.mem_append, List.mem_flatMap, not_or, not_exists, not_and]
      refine ⟨⟨by decide, fun c hc hmem => ?_⟩, by decide⟩
      have hne : (0 : Byte) ≠ c := fun heq => h (heq ▸ hc)
      split at hmem
      · rcases List.mem_append.mp hmem with hmem | hmem
        · exact absurd hmem (by decide)
        · exact hne (List.mem_singleton.mp hmem)
      · exact hne (List.mem_singleton.mp hmem)

/-- Three pieces with blanks between them are three words. -/
theorem tokens_three {mailer subject dest : List Byte} {letters letters' letters'' : Word}
    (h : Contributes mailer letters) (h' : Contributes subject letters')
    (h'' : Contributes dest letters'') :
    tokens (mailer ++ 32 :: (subject ++ 32 :: dest)) =
      some [.word letters, .word letters', .word letters''] := by
  have hblank : isBlank 32 = true := by decide
  have hdest : lex .bare none dest = some [.word letters''] := by
    have hend := h'' none []
    rwa [List.append_nil] at hend
  rw [tokens, h, lex_blank hblank, tokens, h', lex_blank hblank, tokens, hdest]
  rfl

/-- For all strings, the shell takes the command line for three words: the mailer (or its default,
if it is empty), `-s` with the subject, and the destination. No parameter or command expansion,
operator or comment is found, and no character is left to tilde or pathname expansion. -/
theorem tokens_command (mailer subject dest : CString) :
    ∃ words : List Word,
      shellTokens (command mailer.text subject.text dest.text) = some (words.map Token.word) ∧
      words.map Word.removeQuotes =
        [if mailer.text = [] then bytes "/bin/mail" else mailer.text, bytes "-s" ++ subject.text,
          dest.text] ∧
      ∀ word ∈ words, word.Inert := by
  have hmailer : Quotes (if mailer.text.isEmpty then bytes "/bin/mail"
        else shellEscapeExecutable mailer.text)
      (if mailer.text = [] then bytes "/bin/mail" else mailer.text) := by
    by_cases hempty : mailer.text = []
    · rw [if_pos hempty, if_pos (by simpa using hempty)]
      exact quotes_plain (by decide) (by decide +kernel)
    · rw [if_neg hempty, if_neg (by simpa using hempty)]
      exact quotes_shellEscape mailer.text
  have hsubject : Quotes (bytes "-s" ++ shellEscape subject.text) (bytes "-s" ++ subject.text) :=
    (quotes_plain (by decide) (by decide +kernel)).append (quotes_shellEscape subject.text)
  have hnul : 0 ∉ command mailer.text subject.text dest.text := by
    have hlogmailer : 0 ∉ if mailer.text.isEmpty then bytes "/bin/mail"
        else shellEscapeExecutable mailer.text := by
      split
      · decide
      · exact zero_not_mem_shellEscape mailer.noNul
    have hspace : 0 ∉ bytes " -s" ∧ 0 ∉ bytes " " := by decide
    simp only [command, List.mem_append, not_or]
    exact ⟨⟨⟨⟨hlogmailer, hspace.1⟩, zero_not_mem_shellEscape subject.noNul⟩, hspace.2⟩,
      zero_not_mem_shellEscape dest.noNul⟩
  have hall : (command mailer.text subject.text dest.text).takeWhile (· ≠ 0) =
      command mailer.text subject.text dest.text :=
    List.takeWhile_eq_self_iff.mpr fun c hc => decide_eq_true fun h => hnul (h ▸ hc)
  obtain ⟨letters, hpiece, htext, hinert⟩ := hmailer
  obtain ⟨letters', hpiece', htext', hinert'⟩ := hsubject
  obtain ⟨letters'', hpiece'', htext'', hinert''⟩ := quotes_shellEscape dest.text
  refine ⟨[letters, letters', letters''], ?_, ?_, ?_⟩
  · rw [shellTokens, hall, command, show bytes " -s" = 32 :: bytes "-s" from rfl,
      show bytes " " = [32] from rfl]
    have hthree := tokens_three hpiece hpiece' hpiece''
    simpa only [List.append_assoc, List.cons_append, List.nil_append, List.map_cons, List.map_nil]
      using hthree
  · rw [List.map_cons, List.map_cons, List.map_cons, htext, htext', htext'', List.map_nil]
  · simp only [List.mem_cons, List.not_mem_nil, or_false]
    rintro word (rfl | rfl | rfl)
    · exact hinert
    · exact hinert'
    · exact hinert''

end Email

end NgLog
