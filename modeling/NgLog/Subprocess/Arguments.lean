import Mathlib.Data.List.Induction
import Mathlib.Data.List.TakeWhile
import NgLog.Support.CommandLine

/-!
# The command line of a Windows process

`CreateProcessW` takes one line for all arguments. `AppendQuotedArg` appends an argument to it,
between quotes unless it can stand as it is, and the C runtime of the new process splits the line
again.

## Main definitions

* `appendQuotedArg`, `commandLine` — the line that `Spawn` builds
* `runtimeArguments` — the arguments that the C runtime finds in it

## Main results

* `runtimeArguments_commandLine` — it finds those that have been appended
-/

namespace NgLog

namespace Subprocesses

open CommandLine

/-- A `std::wstring` of UTF-16 units, as it is converted from an argument: it holds no NUL. -/
structure WideArgument where
  text : List UInt16
  noNul : 0 ∉ text

/-- The characters that mean something to the C runtime. -/
def wideSpecials : Specials UInt16 where
  quote := 34
  backslash := 92
  blank c := c = 32 ∨ c = 9
  quote_ne_backslash := by decide
  blank_quote := rfl
  blank_backslash := rfl

/-- `L" \t\n\v\""`. -/
def needsQuotes : List UInt16 := [32, 9, 10, 11, 34]

/-- `AppendQuotedArg`: the new value of `out`. -/
def appendQuotedArg (arg out : List UInt16) : List UInt16 :=
  let out := if out.isEmpty then out else out ++ [32]
  if ¬arg.isEmpty ∧ arg.all fun c => c ∉ needsQuotes then out ++ arg
  else out ++ wideSpecials.quote :: quoteWith wideSpecials (fun run => run * 2 + 1) 0 arg

/-- The line after successive calls. -/
def commandLine (args : List WideArgument) : List UInt16 :=
  args.foldl (fun out arg => appendQuotedArg arg.text out) []

/-- What the C runtime makes of a line, the part of it for the arguments after the program name. The
line ends at a NUL. -/
def runtimeArguments (pairs : Bool) (line : List UInt16) : List (List UInt16) :=
  arguments wideSpecials pairs (line.takeWhile (· ≠ 0))

variable (pairs : Bool)

/-- What is appended is the argument, behind a blank unless it is the first one. -/
theorem appendQuotedArg_spec (arg out : List UInt16) :
    ∃ piece, ReadsAs wideSpecials pairs piece [arg] ∧
      (∀ c ∈ piece, c ∈ arg ∨ c = 34 ∨ c = 92) ∧
      appendQuotedArg arg out = (if out.isEmpty then out else out ++ [32]) ++ piece := by
  rw [appendQuotedArg]
  split
  · rename_i hplain
    obtain ⟨hne, hall⟩ := hplain
    refine ⟨arg, readsAs_plain (by simpa using hne) fun c hc => ?_, fun c hc => .inl hc, rfl⟩
    have hneeds : c ∉ needsQuotes := of_decide_eq_true (List.all_eq_true.mp hall c hc)
    simp only [needsQuotes, List.mem_cons, List.not_mem_nil, or_false, not_or] at hneeds
    exact ⟨hneeds.2.2.2.2, decide_eq_false fun h => h.elim hneeds.1 hneeds.2.1⟩
  · refine ⟨_, readsAs_quoteWith (doubles_of_forall (fun _ => rfl) 0 arg), fun c hc => ?_, rfl⟩
    rcases List.mem_cons.mp hc with rfl | hc
    · exact .inr (.inl rfl)
    · exact mem_quoteWith hc

/-- The line is the arguments that have been appended to it. -/
theorem commandLine_readsAs (args : List WideArgument) :
    ReadsAs wideSpecials pairs (commandLine args) (args.map WideArgument.text) ∧
      0 ∉ commandLine args := by
  induction args using List.reverseRecOn with
  | nil => exact ⟨readsAs_nil, List.not_mem_nil⟩
  | append_singleton args arg ih =>
    obtain ⟨hline, hnul⟩ := ih
    have hfold : commandLine (args ++ [arg]) = appendQuotedArg arg.text (commandLine args) := by
      rw [commandLine, List.foldl_append]
      rfl
    obtain ⟨piece, hpiece, hmem, happend⟩ := appendQuotedArg_spec pairs arg.text (commandLine args)
    have hpieceNul : 0 ∉ piece := by
      intro h
      rcases hmem 0 h with h | h | h
      · exact arg.noNul h
      · cases h
      · cases h
    rw [hfold, happend, List.map_append]
    by_cases hempty : commandLine args = []
    · rw [hempty] at hline ⊢
      have hnone : args.map WideArgument.text = [] := (arguments_of_readsAs hline).symm
      rw [hnone]
      exact ⟨hpiece, hpieceNul⟩
    · rw [if_neg (by simpa using hempty), List.append_assoc]
      refine ⟨hline.append (by decide) hpiece, ?_⟩
      simp [hnul, hpieceNul]

/-- For all arguments without a NUL, the C runtime finds in the line that successive calls of
`AppendQuotedArg` have built just these arguments, whether or not it takes a pair of quotes for a
literal one. -/
theorem runtimeArguments_commandLine (pairs : Bool) (args : List WideArgument) :
    runtimeArguments pairs (commandLine args) = args.map WideArgument.text := by
  obtain ⟨hline, hnul⟩ := commandLine_readsAs pairs args
  have hall : (commandLine args).takeWhile (· ≠ 0) = commandLine args :=
    List.takeWhile_eq_self_iff.mpr fun c hc => decide_eq_true fun h => hnul (h ▸ hc)
  rw [runtimeArguments, hall, arguments_of_readsAs hline]

end Subprocesses

end NgLog
