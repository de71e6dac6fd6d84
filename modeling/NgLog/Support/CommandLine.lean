import Mathlib.Algebra.BigOperators.Group.List.Basic
import Mathlib.Algebra.GroupWithZero.Nat
import Mathlib.Data.Nat.Notation
import Mathlib.Tactic.Common

/-!
# Command lines with quotes and backslashes

A C runtime that is handed one line splits it into arguments. Blanks separate arguments except
between quotes. A backslash is literal unless a run of them ends in a quote: `2 * n` backslashes and
a quote stand for `n` backslashes and a quote that opens or closes, `2 * n + 1` for `n` backslashes
and a literal quote. Some runtimes also take a quote right behind a closing one for a literal quote,
after which the argument is open again.

An encoder puts an argument between quotes and chooses how many backslashes to write before a quote
in place of a run of `n`. With `2 * n + 1` the argument is read back; nothing else does.

## Main definitions

* `Specials` — the special characters
* `arguments` — the splitting of a line
* `ReadsAs` — a piece of a line that is these arguments, whatever comes behind
* `quoteWith` — the encoder
* `Doubles` — the encoder writes `2 * n + 1` backslashes before every quote

## Main results

* `readsAs_quoteWith` — an encoder that does is read back
* `arguments_quoteWith_iff` — where a pair of quotes is not literal, no other is
-/

namespace NgLog

namespace CommandLine

/-- The special characters. -/
structure Specials (α : Type) where
  quote : α
  backslash : α
  /-- A character that separates arguments. -/
  blank : α → Bool
  quote_ne_backslash : quote ≠ backslash
  blank_quote : blank quote = false
  blank_backslash : blank backslash = false

/-- Where the runtime is with respect to quotes. -/
inductive Mode
  | outside
  | inside
  /-- Right behind a closing quote. -/
  | closed
  deriving DecidableEq

variable {α : Type} [DecidableEq α] (r : Specials α) (pairs : Bool)

/-- The argument with a run of backslashes that no quote ends. -/
def withRun (arg : Option (List α)) (run : ℕ) : Option (List α) :=
  if run = 0 then arg else some (arg.getD [] ++ List.replicate run r.backslash)

/-- The arguments in the rest of a line, the one that has been begun first. The last `run`
characters were backslashes, which have not been dealt with yet. If `pairs`, a quote right behind a
closing one is literal. -/
def split : Mode → ℕ → Option (List α) → List α → List (List α)
  | _, run, arg, [] => (withRun r arg run).toList
  | mode, run, arg, c :: rest =>
    if c = r.backslash then split (if mode = .inside then .inside else .outside) (run + 1) arg rest
    else if c = r.quote then
      let arg := arg.getD [] ++ List.replicate (run / 2) r.backslash
      if run % 2 = 1 then
        split (if mode = .inside then .inside else .outside) 0 (some (arg ++ [r.quote])) rest
      else
        match mode with
        | .outside => split .inside 0 (some arg) rest
        | .inside => split (if pairs then .closed else .outside) 0 (some arg) rest
        | .closed => split .inside 0 (some (arg ++ [r.quote])) rest
    else if mode ≠ .inside ∧ r.blank c then
      (withRun r arg run).toList ++ split .outside 0 none rest
    else
      split (if mode = .inside then .inside else .outside) 0
        (some (arg.getD [] ++ List.replicate run r.backslash ++ [c])) rest

/-- The arguments of a line. -/
def arguments (line : List α) : List (List α) := split r pairs .outside 0 none line

/-! ### One character -/

variable {r} {pairs} {mode : Mode} {run : ℕ} {arg : Option (List α)} {c : α} {rest : List α}

omit [DecidableEq α] in
@[simp] theorem withRun_zero : withRun r arg 0 = arg := rfl

omit [DecidableEq α] in
theorem withRun_some (arg : List α) :
    withRun r (some arg) run = some (arg ++ List.replicate run r.backslash) := by
  cases run with
  | zero => simp
  | succ run => rfl

/-- An odd run makes the quote literal. -/
theorem split_literal_quote (h : run % 2 = 1) (arg : List α) :
    split r pairs .inside run (some arg) (r.quote :: rest) =
      split r pairs .inside 0
        (some (arg ++ List.replicate (run / 2) r.backslash ++ [r.quote])) rest := by
  rw [split, if_neg r.quote_ne_backslash, if_pos rfl]
  dsimp only
  rw [if_pos h]
  rfl

/-- An even run does not. -/
theorem split_closing_quote (h : run % 2 ≠ 1) (arg : List α) :
    split r pairs .inside run (some arg) (r.quote :: rest) =
      split r pairs (if pairs then .closed else .outside) 0
        (some (arg ++ List.replicate (run / 2) r.backslash)) rest := by
  rw [split, if_neg r.quote_ne_backslash, if_pos rfl]
  dsimp only
  rw [if_neg h]
  rfl

theorem split_other (hbackslash : c ≠ r.backslash) (hquote : c ≠ r.quote) (arg : List α) :
    split r pairs .inside run (some arg) (c :: rest) =
      split r pairs .inside 0 (some (arg ++ List.replicate run r.backslash ++ [c])) rest := by
  rw [split, if_neg hbackslash, if_neg hquote, if_neg fun h => h.1 rfl]
  rfl

/-- A run of backslashes is counted. -/
theorem split_replicate (hmode : mode ≠ .closed) (n : ℕ) (rest : List α) :
    split r pairs mode run arg (List.replicate n r.backslash ++ rest) = split r pairs mode
      (run + n) arg rest := by
  induction n generalizing run with
  | zero => rfl
  | succ n ih =>
    have hstay : (if mode = .inside then .inside else .outside) = mode := by
      cases mode with
      | outside => rfl
      | inside => rfl
      | closed => exact absurd rfl hmode
    rw [List.replicate_succ, List.cons_append, split, if_pos rfl, hstay, ih, Nat.add_right_comm,
      Nat.add_assoc]

/-! ### Pieces of a line -/

/-- Nothing follows, or a blank. -/
def EndsArgument (r : Specials α) (rest : List α) : Prop := ∀ c ∈ rest.head?, r.blank c = true

/-- The piece of a line is these arguments, whatever comes behind it. -/
def ReadsAs (r : Specials α) (pairs : Bool) (piece : List α) (args : List (List α)) : Prop :=
  ∀ rest, EndsArgument r rest → arguments r pairs (piece ++ rest) = args ++ arguments r pairs rest

theorem arguments_of_readsAs {line : List α} {args : List (List α)}
    (h : ReadsAs r pairs line args) :
    arguments r pairs line = args := by
  have hline := h [] (by simp [EndsArgument])
  rwa [List.append_nil, show arguments r pairs [] = [] from rfl, List.append_nil] at hline

omit [DecidableEq α] in
theorem ne_of_blank (h : r.blank c = true) : c ≠ r.backslash ∧ c ≠ r.quote := by
  constructor
  · rintro rfl
    rw [r.blank_backslash] at h
    cases h
  · rintro rfl
    rw [r.blank_quote] at h
    cases h

/-- A blank ends the argument. -/
theorem split_blank (hmode : mode ≠ .inside) (h : r.blank c = true) :
    split r pairs mode run arg
    (c :: rest) = (withRun r arg run).toList ++ arguments r pairs rest := by
  obtain ⟨hbackslash, hquote⟩ := ne_of_blank h
  rw [split, if_neg hbackslash, if_neg hquote, if_pos ⟨hmode, h⟩]
  rfl

/-- So does the end of the line. -/
theorem split_of_endsArgument (hmode : mode ≠ .inside) (h : EndsArgument r rest) :
    split r pairs mode run arg rest = (withRun r arg run).toList ++ arguments r pairs rest := by
  cases rest with
  | nil =>
    rw [split, show arguments r pairs ([] : List α) = [] from rfl, List.append_nil]
  | cons c rest =>
    have hblank : r.blank c = true := h c rfl
    have hrest : arguments r pairs (c :: rest) = arguments r pairs rest :=
      split_blank (show Mode.outside ≠ .inside by decide) hblank
    rw [split_blank hmode hblank, hrest]

theorem readsAs_nil : ReadsAs r pairs [] [] := fun _ _ => rfl

/-- A blank between two pieces. -/
theorem ReadsAs.append {piece piece' : List α} {args args' : List (List α)}
    (h : ReadsAs r pairs piece args) (hblank : r.blank c = true)
    (h' : ReadsAs r pairs piece' args') :
    ReadsAs r pairs (piece ++ c :: piece') (args ++ args') := by
  intro rest hrest
  calc arguments r pairs (piece ++ c :: piece' ++ rest)
      = arguments r pairs (piece ++ c :: (piece' ++ rest)) := by
        rw [List.append_assoc, List.cons_append]
    _ = args ++ arguments r pairs (c :: (piece' ++ rest)) := by
        refine h _ fun b hb => ?_
        cases hb
        exact hblank
    _ = args ++ arguments r pairs (piece' ++ rest) := by
        rw [arguments, split_blank (by decide) hblank]
        rfl
    _ = args ++ (args' ++ arguments r pairs rest) := by rw [h' rest hrest]
    _ = args ++ args' ++ arguments r pairs rest := (List.append_assoc ..).symm

/-- An argument without special characters, of which some have been read. -/
theorem split_plain {text : List α}
    (h : ∀ c ∈ text, c ≠ r.quote ∧ r.blank c = false) (hrest : EndsArgument r rest) :
    ∀ (run : ℕ) (arg : Option (List α)), (arg = none → run = 0 → text ≠ []) →
      split r pairs .outside run arg (text ++ rest) =
        (arg.getD [] ++ List.replicate run r.backslash ++ text) :: arguments r pairs rest := by
  induction text with
  | nil =>
    intro run arg hsome
    rw [List.nil_append, split_of_endsArgument (by decide) hrest, List.append_nil]
    cases arg with
    | none =>
      have hrun : run ≠ 0 := fun hrun => hsome rfl hrun rfl
      rw [withRun, if_neg hrun]
      rfl
    | some arg =>
      rw [withRun_some]
      rfl
  | cons c text ih =>
    intro run arg _
    obtain ⟨hquote, hblank⟩ := h c List.mem_cons_self
    have htext : ∀ c ∈ text, c ≠ r.quote ∧ r.blank c = false :=
      fun b hb => h b (List.mem_cons_of_mem c hb)
    by_cases hbackslash : c = r.backslash
    · subst hbackslash
      rw [List.cons_append, split, if_pos rfl, if_neg (by decide),
        ih htext (run + 1) arg fun _ hrun => absurd hrun (Nat.succ_ne_zero run)]
      rw [List.replicate_succ', List.append_assoc, List.append_assoc, List.append_assoc]
      rfl
    · rw [List.cons_append, split, if_neg hbackslash, if_neg hquote, if_neg (by simp [hblank]),
        if_neg (by decide), ih htext 0 (some _) nofun]
      simp

/-- A nonempty argument without special characters stands for itself. -/
theorem readsAs_plain {text : List α} (hne : text ≠ [])
    (h : ∀ c ∈ text, c ≠ r.quote ∧ r.blank c = false) : ReadsAs r pairs text [text] := by
  intro rest hrest
  rw [arguments, split_plain h hrest 0 none fun _ _ => hne]
  rfl

/-! ### Encoders -/

/-- What is written for an argument behind the opening quote, where its last `run` characters have
been backslashes: `beforeQuote run` backslashes before a quote, twice as many as there are at the
end, and just these elsewhere. -/
def quoteWith (r : Specials α) (beforeQuote : ℕ → ℕ) : ℕ → List α → List α
  | run, [] => List.replicate (run * 2) r.backslash ++ [r.quote]
  | run, c :: text =>
    if c = r.backslash then quoteWith r beforeQuote (run + 1) text
    else if c = r.quote then
      List.replicate (beforeQuote run) r.backslash ++ c :: quoteWith r beforeQuote 0 text
    else List.replicate run r.backslash ++ c :: quoteWith r beforeQuote 0 text

/-- The encoder writes no other characters. -/
theorem mem_quoteWith {beforeQuote : ℕ → ℕ} {run : ℕ} {text : List α} {c : α}
    (h : c ∈ quoteWith r beforeQuote run text) : c ∈ text ∨ c = r.quote ∨ c = r.backslash := by
  induction text generalizing run with
  | nil =>
    rw [quoteWith, List.mem_append, List.mem_replicate, List.mem_singleton] at h
    exact .inr (h.elim (fun h => .inr h.2) .inl)
  | cons b text ih =>
    have htail : ∀ {run}, c ∈ quoteWith r beforeQuote run text →
        c ∈ b :: text ∨ c = r.quote ∨ c = r.backslash :=
      fun h => (ih h).imp_left (List.mem_cons_of_mem b)
    have hcons : ∀ n, c ∈ List.replicate n r.backslash ++ b :: quoteWith r beforeQuote 0 text →
        c ∈ b :: text ∨ c = r.quote ∨ c = r.backslash := by
      intro n h
      rw [List.mem_append, List.mem_replicate, List.mem_cons] at h
      rcases h with ⟨-, hc⟩ | hc | htext
      · exact .inr (.inr hc)
      · exact .inl (hc ▸ List.mem_cons_self)
      · exact htail htext
    rw [quoteWith] at h
    split at h
    · exact htail h
    · split at h
      · exact hcons _ h
      · exact hcons _ h

/-- The encoder doubles the backslashes before every quote and adds one. -/
def Doubles (r : Specials α) (beforeQuote : ℕ → ℕ) : ℕ → List α → Prop
  | _, [] => True
  | run, c :: text =>
    if c = r.backslash then Doubles r beforeQuote (run + 1) text
    else if c = r.quote then beforeQuote run = run * 2 + 1 ∧ Doubles r beforeQuote 0 text
    else Doubles r beforeQuote 0 text

variable {beforeQuote : ℕ → ℕ} {text : List α}

theorem doubles_backslash : Doubles r beforeQuote run (r.backslash :: text) ↔
    Doubles r beforeQuote (run + 1) text := by
  rw [Doubles, if_pos rfl]

theorem doubles_quote : Doubles r beforeQuote run (r.quote :: text) ↔
    beforeQuote run = run * 2 + 1 ∧ Doubles r beforeQuote 0 text := by
  rw [Doubles, if_neg r.quote_ne_backslash, if_pos rfl]

theorem doubles_other (hbackslash : c ≠ r.backslash) (hquote : c ≠ r.quote) :
    Doubles r beforeQuote run (c :: text) ↔ Doubles r beforeQuote 0 text := by
  rw [Doubles, if_neg hbackslash, if_neg hquote]

/-- Such an encoder can be relied on for every argument. -/
theorem doubles_of_forall (h : ∀ n, beforeQuote n = n * 2 + 1) (run : ℕ) (text : List α) :
    Doubles r beforeQuote run text := by
  induction text generalizing run with
  | nil => trivial
  | cons c text ih =>
    by_cases hbackslash : c = r.backslash
    · exact hbackslash ▸ doubles_backslash.mpr (ih _)
    by_cases hquote : c = r.quote
    · exact hquote ▸ doubles_quote.mpr ⟨h run, ih _⟩
    · exact (doubles_other hbackslash hquote).mpr (ih _)

/-- What a doubling encoder writes is read up to the closing quote. -/
theorem split_quoteWith (h : Doubles r beforeQuote run text) (arg rest : List α) :
    split r pairs .inside 0 (some arg) (quoteWith r beforeQuote run text ++ rest) =
      split r pairs (if pairs then .closed else .outside) 0
        (some (arg ++ List.replicate run r.backslash ++ text)) rest := by
  induction text generalizing run arg with
  | nil =>
    rw [quoteWith, List.append_assoc, split_replicate (by decide), List.singleton_append,
      split_closing_quote (by omega), Nat.zero_add, Nat.mul_div_cancel _ Nat.two_pos,
      List.append_nil]
  | cons c text ih =>
    by_cases hbackslash : c = r.backslash
    · subst hbackslash
      rw [quoteWith, if_pos rfl, ih (doubles_backslash.mp h), List.replicate_succ']
      simp only [List.append_assoc, List.singleton_append]
    by_cases hquote : c = r.quote
    · subst hquote
      obtain ⟨hrun, htext⟩ := doubles_quote.mp h
      rw [quoteWith, if_neg r.quote_ne_backslash, if_pos rfl, List.append_assoc,
        split_replicate (by decide),
        List.cons_append, hrun, split_literal_quote (by omega), ih htext,
        show (0 + (run * 2 + 1)) / 2 = run by omega]
      simp
    · rw [quoteWith, if_neg hbackslash, if_neg hquote, List.append_assoc,
        split_replicate (by decide),
        List.cons_append, split_other hbackslash hquote,
        ih ((doubles_other hbackslash hquote).mp h)]
      simp

/-- The opening quote. -/
theorem arguments_quote (rest : List α) :
    arguments r pairs (r.quote :: rest) = split r pairs .inside 0 (some []) rest := by
  rw [arguments, split, if_neg r.quote_ne_backslash, if_pos rfl]
  rfl

/-- A doubling encoder is read back. -/
theorem readsAs_quoteWith (h : Doubles r beforeQuote 0 text) :
    ReadsAs r pairs (r.quote :: quoteWith r beforeQuote 0 text) [text] := by
  intro rest hrest
  have hclosed : (if pairs then Mode.closed else Mode.outside) ≠ Mode.inside := by
    split <;> decide
  rw [List.cons_append, arguments_quote, split_quoteWith h, split_of_endsArgument hclosed hrest]
  rfl

/-! ### No other encoder -/

/-- How many characters the arguments have. -/
def total (args : List (List α)) : ℕ := (args.map List.length).sum

omit [DecidableEq α] in
theorem total_append (args args' : List (List α)) :
    total (args ++ args') = total args + total args' := by
  rw [total, List.map_append, List.sum_append]
  rfl

omit [DecidableEq α] in
theorem total_withRun (arg : Option (List α)) (run : ℕ) :
    total (withRun r arg run).toList = (arg.getD []).length + run := by
  cases arg with
  | none =>
    by_cases hrun : run = 0
    · subst hrun
      rfl
    · rw [withRun, if_neg hrun]
      simp [total]
  | some arg => simp [withRun_some, total]

/-- What a character other than a backslash adds to the arguments. -/
theorem split_cons_total (hpairs : pairs = false) (hmode : mode ≠ .closed) (run : ℕ)
    (arg : Option (List α)) {c : α} (hc : c ≠ r.backslash) (rest : List α) :
    ∃ (done : List (List α)) (mode' : Mode) (arg' : Option (List α)), mode' ≠ .closed ∧
      split r pairs mode run arg (c :: rest) = done ++ split r pairs mode' 0 arg' rest ∧
      total done + (arg'.getD []).length =
        (arg.getD []).length + if c = r.quote then run / 2 + run % 2
          else if mode ≠ .inside ∧ r.blank c then run else run + 1 := by
  have hstay : (if mode = .inside then Mode.inside else .outside) ≠ .closed := by
    split <;> decide
  rw [split, if_neg hc]
  by_cases hquote : c = r.quote
  · rw [if_pos hquote, if_pos hquote]
    dsimp only
    by_cases hodd : run % 2 = 1
    · refine ⟨[], _, some _, hstay, if_pos hodd, ?_⟩
      simp only [total, List.map_nil, List.sum_nil, Option.getD_some, List.length_append,
        List.length_replicate, List.length_singleton]
      omega
    · rw [if_neg hodd]
      have hlength : total ([] : List (List α)) +
          ((some (arg.getD [] ++ List.replicate (run / 2) r.backslash)).getD []).length =
            (arg.getD []).length + (run / 2 + run % 2) := by
        simp only [total, List.map_nil, List.sum_nil, Option.getD_some, List.length_append,
          List.length_replicate]
        omega
      cases mode with
      | outside => exact ⟨[], .inside, some _, by decide, rfl, hlength⟩
      | inside =>
        refine ⟨[], .outside, some _, by decide, ?_, hlength⟩
        rw [hpairs]
        rfl
      | closed => exact absurd rfl hmode
  · rw [if_neg hquote, if_neg hquote]
    by_cases hblank : mode ≠ .inside ∧ r.blank c = true
    · refine ⟨_, .outside, none, by decide, if_pos hblank, ?_⟩
      rw [if_pos hblank, total_withRun]
      rfl
    · refine ⟨[], _, some _, hstay, if_neg hblank, ?_⟩
      rw [if_neg hblank]
      simp only [total, List.map_nil, List.sum_nil, Option.getD_some, List.length_append,
        List.length_replicate, List.length_singleton]
      omega

/-- What is read back is not longer than the argument, and shorter if a quote has too few
backslashes before it: a run that was to be doubled has been halved. -/
theorem total_quoteWith (hpairs : pairs = false) (hle : ∀ n, beforeQuote n ≤ n * 2 + 1)
    (hmode : mode ≠ .closed) (run : ℕ) (arg : Option (List α)) :
    total (split r pairs mode 0 arg (quoteWith r beforeQuote run text)) ≤
        (arg.getD []).length + run + text.length ∧
      (¬Doubles r beforeQuote run text →
        total (split r pairs mode 0 arg (quoteWith r beforeQuote run text)) <
          (arg.getD []).length + run + text.length) := by
  induction text generalizing mode run arg with
  | nil =>
    refine ⟨?_, fun h => absurd trivial h⟩
    obtain ⟨done, mode', arg', -, hsplit, htotal⟩ := split_cons_total hpairs hmode (0 + run * 2) arg
      r.quote_ne_backslash []
    rw [quoteWith, split_replicate hmode, hsplit, split, withRun_zero, total_append]
    rw [if_pos rfl] at htotal
    have hlast : total arg'.toList = (arg'.getD []).length := by
      cases arg' <;> simp [total]
    rw [List.length_nil, hlast]
    omega
  | cons c text ih =>
    rw [List.length_cons]
    by_cases hbackslash : c = r.backslash
    · subst hbackslash
      obtain ⟨hle', hlt⟩ := ih hmode (run + 1) arg
      rw [quoteWith, if_pos rfl, doubles_backslash]
      exact ⟨by omega, fun h => by have := hlt h; omega⟩
    by_cases hquote : c = r.quote
    · subst hquote
      obtain ⟨done, mode', arg', hmode', hsplit, htotal⟩ := split_cons_total hpairs hmode
        (0 + beforeQuote run) arg r.quote_ne_backslash (quoteWith r beforeQuote 0 text)
      obtain ⟨hle', hlt⟩ := ih hmode' 0 arg'
      have hrun := hle run
      rw [if_pos rfl] at htotal
      rw [quoteWith, if_neg r.quote_ne_backslash, if_pos rfl, split_replicate hmode, hsplit,
        total_append, doubles_quote]
      refine ⟨by omega, fun h => ?_⟩
      by_cases hdouble : beforeQuote run = run * 2 + 1
      · have := hlt fun htext => h ⟨hdouble, htext⟩
        omega
      · omega
    · obtain ⟨done, mode', arg', hmode', hsplit, htotal⟩ := split_cons_total hpairs hmode
        (0 + run) arg hbackslash (quoteWith r beforeQuote 0 text)
      obtain ⟨hle', hlt⟩ := ih hmode' 0 arg'
      rw [if_neg hquote] at htotal
      rw [quoteWith, if_neg hbackslash, if_neg hquote, split_replicate hmode, hsplit, total_append,
        doubles_other hbackslash hquote]
      split at htotal
      · exact ⟨by omega, fun h => by have := hlt h; omega⟩
      · exact ⟨by omega, fun h => by have := hlt h; omega⟩

/-- An encoder that never writes more is read back as this one argument only if it doubles. -/
theorem arguments_quoteWith_iff (hpairs : pairs = false) (hle : ∀ n, beforeQuote n ≤ n * 2 + 1) :
    arguments r pairs (r.quote :: quoteWith r beforeQuote 0 text) = [text] ↔
      Doubles r beforeQuote 0 text := by
  constructor
  · intro hread
    by_contra hdoubles
    have hlt := (total_quoteWith hpairs hle (show Mode.inside ≠ .closed by decide) 0 (some [])).2
      hdoubles
    rw [← arguments_quote, hread] at hlt
    simp [total] at hlt
  · exact fun hdoubles => arguments_of_readsAs (readsAs_quoteWith hdoubles)

/-- An encoder that adds one backslash before a quote doubles if there is no run to be doubled. -/
theorem doubles_succ_iff (text : List α) :
    Doubles r (· + 1) 0 text ↔ ¬[r.backslash, r.quote] <:+: text := by
  have hrun : ∀ run, Doubles r (· + 1) run text ↔
      (run ≠ 0 → r.quote ∉ text.head?) ∧ ¬[r.backslash, r.quote] <:+: text := by
    induction text with
    | nil => simp [Doubles]
    | cons c text ih =>
      intro run
      rw [List.infix_cons_iff, List.cons_prefix_cons]
      by_cases hbackslash : c = r.backslash
      · subst hbackslash
        rw [doubles_backslash, ih]
        cases text with
        | nil => simp [r.quote_ne_backslash.symm]
        | cons b text =>
          simp [r.quote_ne_backslash, List.cons_prefix_cons, eq_comm]
      by_cases hquote : c = r.quote
      · subst hquote
        have hzero : run + 1 = run * 2 + 1 ↔ run = 0 := by omega
        rw [doubles_quote, ih, hzero]
        simp [r.quote_ne_backslash.symm]
      · rw [doubles_other hbackslash hquote, ih]
        simp [hquote, Ne.symm hbackslash]
  simpa using hrun 0

end CommandLine

end NgLog
