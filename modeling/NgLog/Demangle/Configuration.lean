import NgLog.Demangle.Output
import NgLog.Demangle.Refusals

/-!
# Following a run

What the parse functions do on an input that is known. A configuration says what is still to be
read, what has been printed, at least how many steps are left, and what the other fields of the
state are. The lemmas here are about tokens, numbers and the output functions; on top of them, the
run of a whole name can be followed.

## Main definitions

* `Printing`, `Config` — the configuration of a machine, and one whose output is terminated
* `Text.Gives` — what a text is, if so much has been printed
* `decimal` — a number in digits

## Main results

* `Config.oneCharToken`, `Config.positiveNumber`, … — tokens and numbers that are there
* `Config.maybeAppendWithLength`, `Config.cancelSeparator` — output that there is room for
* `Config.guardLevel`, `Config.guardDepth` — levels that may be entered
-/

namespace NgLog

namespace Demangle

open Backtracking (Machine)
open Backtracking.Parser (After Fails Declines and_eq_true_iff)

variable {w : CString} {room : ℕ} {s : State} {input output : List Byte} {steps : ℕ}
  {m : Machine State Store}

theorem after_saving {P : Machine State Store → Prop} {k : State → Parser w Bool}
    (h : After (k m.state) P m) : After (saving k) P m := h

/-! ### Configurations -/

/-- The machine has `input` to read, it has printed `output` to a buffer of the size `room`, it has
at least `steps` steps left, and its state is otherwise that of `s`. The ghost fields may be
anything. -/
structure Printing (w : CString) (room : ℕ) (s : State) (input output : List Byte) (steps : ℕ)
    (m : Machine State Store) : Prop where
  state : m.state = { s with
    mangledCur := m.state.mangledCur
    outCur := output.length
    kept := m.state.kept }
  rest : rest w m.state = input
  cursor : m.state.mangledCur ≤ w.length
  room : m.store.out.length = room
  written : ∀ (i : ℕ) (b : Byte), output[i]? = some b → m.store.out[i]? = some (⟨b, true⟩ : Cell)
  steps : steps ≤ m.store.stepsRemaining

/-- Besides, what has been printed is terminated. -/
structure Config (w : CString) (room : ℕ) (s : State) (input output : List Byte) (steps : ℕ)
    (m : Machine State Store) : Prop extends Printing w room s input output steps m where
  terminator : m.store.out[output.length]? = some (⟨0, true⟩ : Cell)

namespace Printing

theorem outCur (h : Printing w room s input output steps m) : m.state.outCur = output.length := by
  rw [h.state]

theorem append (h : Printing w room s input output steps m) : m.state.append = s.append := by
  rw [h.state]

theorem overflowed (h : Printing w room s input output steps m) :
    m.state.overflowed = s.overflowed := by
  rw [h.state]

theorem skipSeparator (h : Printing w room s input output steps m) :
    m.state.skipSeparator = s.skipSeparator := by
  rw [h.state]

theorem nestLevel (h : Printing w room s input output steps m) :
    m.state.nestLevel = s.nestLevel := by
  rw [h.state]

theorem prevName (h : Printing w room s input output steps m) : m.state.prevName = s.prevName := by
  rw [h.state]

theorem prevNameLength (h : Printing w room s input output steps m) :
    m.state.prevNameLength = s.prevNameLength := by
  rw [h.state]

theorem pendingRefQualifier (h : Printing w room s input output steps m) :
    m.state.pendingRefQualifier = s.pendingRefQualifier := by
  rw [h.state]

theorem level (h : Printing w room s input output steps m) (level : Level) :
    m.state.level level = s.level level := by
  rw [h.state]
  cases level <;> rfl

theorem byteAt (h : Printing w room s input output steps m) :
    w.byteAt m.state.mangledCur = input.headD 0 := by
  rw [← headD_rest, h.rest]

theorem remaining (h : Printing w room s input output steps m) : remaining w m = input.length := by
  rw [← h.rest, length_rest, Demangle.remaining]

end Printing

namespace Config

theorem mono {steps' : ℕ} (h : Config w room s input output steps m) (hle : steps' ≤ steps) :
    Config w room s input output steps' m :=
  ⟨⟨h.state, h.rest, h.cursor, h.room, h.written, Nat.le_trans hle h.steps⟩, h.terminator⟩

/-- A failed attempt that has taken steps. -/
theorem spent {k j : ℕ} (h : Config w room s input output (k + steps) m) (hj : j ≤ k) :
    Config w room s input output steps (spent m j) := by
  refine ⟨⟨h.state, h.rest, h.cursor, h.room, h.written, ?_⟩, h.terminator⟩
  have hsteps := h.steps
  show steps ≤ m.store.stepsRemaining - j
  omega

/-- Fields that are no part of the input and the output. -/
theorem set {g : State → State} (h : Config w room s input output steps m)
    (hg : ∀ cur out kept, g { s with mangledCur := cur, outCur := out, kept := kept } =
      { g s with mangledCur := cur, outCur := out, kept := kept }) :
    Config w room (g s) input output steps ⟨g m.state, m.store⟩ := by
  have hstate : g m.state = { g s with
      mangledCur := m.state.mangledCur
      outCur := output.length
      kept := m.state.kept } := by
    rw [h.state]
    exact hg ..
  refine ⟨⟨?_, ?_, ?_, h.room, h.written, h.steps⟩, h.terminator⟩
  · rw [hstate]
  · rw [hstate]
    exact h.rest
  · rw [hstate]
    exact h.cursor

/-! ### Tokens -/

/-- What has been read. -/
theorem moved (text : List Byte) (h : Config w room s (text ++ input) output steps m) :
    Config w room s input output steps (moved m text.length) := by
  have hrest := h.rest
  have hlen : text.length ≤ w.length - m.state.mangledCur := by
    rw [← length_rest, hrest, List.length_append]
    exact Nat.le_add_right ..
  have hcursor := h.cursor
  refine ⟨⟨?_, ?_, ?_, h.room, h.written, h.steps⟩, h.terminator⟩
  · rw [Demangle.moved, h.state]
  · show w.text.drop (m.state.mangledCur + text.length) = input
    rw [← List.drop_drop, show w.text.drop m.state.mangledCur = text ++ input from hrest,
      List.drop_left]
  · show m.state.mangledCur + text.length ≤ w.length
    omega

theorem advance (text : List Byte) (h : Config w room s (text ++ input) output steps m) :
    After (Demangle.advance text.length : Parser w Bool) (Config w room s input output steps) m :=
  ⟨_, advance_run (h.moved text).cursor, h.moved text⟩

theorem oneCharToken (t : Char) (ht : t.toUInt8 ≠ 0)
    (h : Config w room s (t.toUInt8 :: input) output steps m) :
    After (parseOneCharToken t ht : Parser w Bool) (Config w room s input output steps) m := by
  refine ⟨Demangle.moved m 1, ?_, h.moved [t.toUInt8]⟩
  exact (parseOneCharToken_run t ht h.cursor).trans (if_pos h.byteAt)

theorem twoCharToken (t : String) (ht : (bytes t).length = 2)
    (h : Config w room s (bytes t ++ input) output steps m) :
    After (parseTwoCharToken t ht : Parser w Bool) (Config w room s input output steps) m := by
  refine ⟨Demangle.moved m 2, ?_, ht ▸ h.moved (bytes t)⟩
  refine (parseTwoCharToken_run t ht h.cursor).trans (if_pos ?_)
  rw [h.rest]
  exact List.isPrefixOf_iff_prefix.mpr (List.prefix_append ..)

theorem charClass (t : String) {c : Byte} (hc : c ∈ bytes t) (hne : c ≠ 0)
    (h : Config w room s (c :: input) output steps m) :
    After (parseCharClass t : Parser w Bool) (Config w room s input output steps) m := by
  refine ⟨Demangle.moved m 1, ?_, h.moved [c]⟩
  have hbyte : w.byteAt m.state.mangledCur = c := h.byteAt
  have hlt := lt_length_of_peek (hbyte ▸ hne)
  refine (bind_ok (peek_run 0 h.cursor)).trans ?_
  rw [Nat.add_zero, hbyte, bne_iff_ne.mpr hne, List.contains_iff_mem.mpr hc, Bool.and_true,
    if_pos rfl]
  exact advance_run hlt

/-- A token that is not there. -/
theorem no_oneCharToken (t : Char) (ht : t.toUInt8 ≠ 0)
    (h : Config w room s input output steps m) (hne : input.headD 0 ≠ t.toUInt8) :
    Declines (parseOneCharToken t ht : Parser w Bool) m :=
  declines_parseOneCharToken t ht h.cursor (h.byteAt ▸ hne)

theorem no_twoCharToken (t : String) (ht : (bytes t).length = 2)
    (h : Config w room s input output steps m) (hne : input.headD 0 ≠ (bytes t).headD 0) :
    Declines (parseTwoCharToken t ht : Parser w Bool) m :=
  declines_parseTwoCharToken t ht h.cursor (h.byteAt ▸ hne)

end Config

/-! ### Numbers -/

/-- A number in digits. -/
def decimal (n : ℕ) : List Byte := bytes (toString n)

theorem decimal_eq (n : ℕ) : decimal n = (Nat.toDigits 10 n).map Char.toUInt8 := by
  rw [decimal, bytes, Nat.toString_eq_ofList_toDigits, String.toList_ofList]

theorem toUInt8_toNat_of_isDigit {c : Char} (hc : c.isDigit = true) :
    c.toUInt8.toNat = c.toNat := by
  have hlt : c.toNat ≤ 57 := by
    simp only [Char.isDigit, Bool.and_eq_true, decide_eq_true_eq] at hc
    exact UInt32.le_iff_toNat_le.mp hc.2
  rw [Char.toUInt8, UInt32.toNat_toUInt8]
  exact Nat.mod_eq_of_lt (Nat.lt_of_le_of_lt hlt (by decide))

theorem isDigit_toUInt8 {c : Char} (hc : c.isDigit = true) : isDigit c.toUInt8 = true := by
  have hnat := toUInt8_toNat_of_isDigit hc
  simp only [Char.isDigit, Bool.and_eq_true, decide_eq_true_eq] at hc
  simp only [isDigit, Bool.and_eq_true, decide_eq_true_eq, UInt8.le_iff_toNat_le, hnat]
  exact ⟨UInt32.le_iff_toNat_le.mp hc.1, UInt32.le_iff_toNat_le.mp hc.2⟩

theorem le_ofDigitChars : ∀ (cs : List Char) (number : ℕ), number ≤ Nat.ofDigitChars 10 cs number
  | [], number => Nat.le_of_eq Nat.ofDigitChars_nil.symm
  | c :: cs, number => by
    rw [Nat.ofDigitChars_cons]
    exact Nat.le_trans (by omega) (le_ofDigitChars cs _)

/-- The digit loop reads the digits that are there, if the number is within the limit. -/
theorem scanNumber_digits {limit : ℕ} (p : List Byte) : ∀ (cs : List Char) (number count : ℕ),
    (∀ c ∈ cs, c.isDigit = true) → Nat.ofDigitChars 10 cs number ≤ limit →
      scanNumber limit (cs.map Char.toUInt8 ++ p) number count =
        scanNumber limit p (Nat.ofDigitChars 10 cs number) (count + cs.length)
  | [], number, count, _, _ => by
    rw [Nat.ofDigitChars_nil]
    rfl
  | c :: cs, number, count, hdigits, hle => by
    have hc := hdigits c (List.mem_cons_self ..)
    have hnat := toUInt8_toNat_of_isDigit hc
    rw [Nat.ofDigitChars_cons] at hle ⊢
    have hnumber := Nat.le_trans (le_ofDigitChars cs _) hle
    have hsmall : ¬(number > limit / 10 ∨ number = limit / 10 ∧
        c.toUInt8.toNat - '0'.toNat > limit % 10) := by
      rw [hnat]
      omega
    rw [List.map_cons, List.cons_append, scanNumber, if_pos (isDigit_toUInt8 hc), if_neg]
    · rw [scanNumber_digits p cs _ _ (fun d hd => hdigits d (List.mem_cons_of_mem _ hd)), hnat,
        Nat.mul_comm number 10, List.length_cons, Nat.add_assoc, Nat.add_comm 1]
      rw [hnat, Nat.mul_comm number 10]
      exact hle
    · simpa using hsmall

theorem toDigits_head {n : ℕ} (h : 0 < n) : ∀ c ∈ (Nat.toDigits 10 n).head?, c ≠ '0' := by
  induction n using Nat.strongRecOn with
  | ind n ih =>
    rw [Nat.toDigits_eq_if (by decide)]
    split
    · rintro c hc rfl
      rw [List.head?_cons, Option.mem_some_iff, Nat.digitChar_eq_zero] at hc
      omega
    · intro c hc
      rw [List.head?_append, Option.or_eq_left_of_isSome
        (List.isSome_head?.mpr Nat.toDigits_ne_nil)] at hc
      exact ih (n / 10) (by omega) (by omega) c hc

theorem isDigit_of_mem_decimal {n : ℕ} {b : Byte} (hb : b ∈ decimal n) : isDigit b = true := by
  rw [decimal_eq] at hb
  obtain ⟨c, hc, rfl⟩ := List.mem_map.mp hb
  exact isDigit_toUInt8 (Nat.isDigit_of_mem_toDigits (by decide) (by decide) hc)

theorem decimal_ne_nil (n : ℕ) : decimal n ≠ [] := by
  rw [decimal_eq]
  exact fun hnil => Nat.toDigits_ne_nil (List.map_eq_nil_iff.mp hnil)

/-- The first digit of a positive number is not zero. -/
theorem superfluousZero_decimal {n : ℕ} (h : 0 < n) (p : List Byte) :
    superfluousZero (decimal n ++ p) = false := by
  rw [decimal_eq]
  have hhead := toDigits_head h
  have hdigits : ∀ c ∈ Nat.toDigits 10 n, c.isDigit = true := fun c hc =>
    Nat.isDigit_of_mem_toDigits (by decide) (by decide) hc
  rcases hcs : Nat.toDigits 10 n with _ | ⟨c, cs⟩
  · exact absurd hcs Nat.toDigits_ne_nil
  · rw [hcs] at hhead hdigits
    have hzero : (c.toUInt8 == '0'.toUInt8) = false := by
      rw [beq_eq_false_iff_ne]
      intro heq
      have hnat := congrArg UInt8.toNat heq
      rw [toUInt8_toNat_of_isDigit (hdigits c (List.mem_cons_self ..))] at hnat
      exact hhead c rfl (Char.toNat_inj.mp (hnat.trans (by decide)))
    rw [List.map_cons, List.cons_append]
    rcases cs.map Char.toUInt8 ++ p with _ | ⟨d, p'⟩
    · rfl
    · rw [superfluousZero, hzero, Bool.false_and]

/-- `ParsePositiveNumber` reads a number that is there. -/
theorem Config.positiveNumber {n : ℕ} (hn : 0 < n) (hmax : n ≤ kMaxPositive)
    (h : Config w room s (decimal n ++ input) output steps m)
    (hstop : isDigit (input.headD 0) = false) :
    ∃ m', parsePositiveNumber (w := w) true m = .ok (some (n : ℤ), m') ∧
      Config w room s input output steps m' := by
  have hfirst : isDigit ((decimal n ++ input).headD 0) = true := by
    rcases hdecimal : decimal n with _ | ⟨b, text⟩
    · exact absurd hdecimal (decimal_ne_nil n)
    · exact isDigit_of_mem_decimal (hdecimal ▸ List.mem_cons_self : b ∈ decimal n)
  have hsign : Declines (parseOneCharToken 'n' : Parser w Bool) m := by
    refine h.no_oneCharToken 'n' _ fun heq => ?_
    rw [heq] at hfirst
    exact absurd hfirst (by decide)
  have hdigits : ∀ c ∈ Nat.toDigits 10 n, c.isDigit = true := fun c hc =>
    Nat.isDigit_of_mem_toDigits (by decide) (by decide) hc
  have hscan : scanNumber kMaxPositive (Demangle.rest w m.state) 0 0 = some
      (n, (decimal n).length) := by
    rw [h.rest, decimal_eq, scanNumber_digits input _ 0 0 hdigits
      (by rw [Nat.ofDigitChars_ten_toDigits]; exact hmax), Nat.ofDigitChars_ten_toDigits,
      List.length_map, Nat.zero_add]
    cases input with
    | nil => rfl
    | cons b p =>
      rw [scanNumber, if_neg]
      exact fun hb => absurd (hstop.symm.trans hb) Bool.false_ne_true
  have hzero : superfluousZero (Demangle.rest w m.state) = false :=
    h.rest ▸ superfluousZero_decimal hn input
  have hcount : ((decimal n).length != 0) = true :=
    bne_iff_ne.mpr fun hlen => decimal_ne_nil n (List.eq_nil_of_length_eq_zero hlen)
  have hmoved := h.moved (decimal n)
  have hnumber : parseNumber (w := w) true m = .ok
    (some (n : ℤ), Demangle.moved m (decimal n).length) := by
    rw [parseNumber, saving_run, bind_ok hsign, saving_run]
    simp only [hzero, Bool.false_eq_true, if_false, Bool.not_true, hscan, hcount, if_true]
    exact bind_ok (advance_run hmoved.cursor)
  have hnonneg : parseNonNegativeNumber (w := w) true m =
      .ok (some (n : ℤ), Demangle.moved m (decimal n).length) := by
    rw [parseNonNegativeNumber, Bool.not_true, if_neg Bool.false_ne_true, saving_run,
      bind_ok hnumber]
    exact congrFun (if_pos (Int.natCast_nonneg n)) _
  refine ⟨_, ?_, hmoved⟩
  rw [parsePositiveNumber, Bool.not_true, if_neg Bool.false_ne_true, saving_run, bind_ok hnonneg]
  exact congrFun (if_pos (Int.natCast_pos.mpr hn)) _

/-! ### Output -/

/-- What a text is, when `output` has been printed. -/
def Text.Gives (output : List Byte) : Text → List Byte → Prop
  | .bytes text, given => text = given
  | .out start length, given => length = given.length ∧ (output.drop start).take length = given

theorem Text.Gives.length {str : Text} {text : List Byte} (h : str.Gives output text) :
    str.length = text.length := by
  cases str with
  | bytes _ => exact congrArg List.length h
  | out start length => exact h.1

/-- What has been printed is still there later. -/
theorem Text.Gives.append {str : Text} {text : List Byte} (h : str.Gives output text)
    (more : List Byte) : str.Gives (output ++ more) text := by
  cases str with
  | bytes _ => exact h
  | out start length =>
    obtain ⟨hlength, htake⟩ := h
    refine ⟨hlength, ?_⟩
    have hle : length ≤ (output.drop start).length := by
      rw [hlength, ← htake, List.length_take]
      exact Nat.min_le_right ..
    by_cases hstart : start ≤ output.length
    · rw [List.drop_append_of_le_length hstart, List.take_append_of_le_length hle, htake]
    · rw [List.length_drop, Nat.sub_eq_zero_of_le (Nat.le_of_not_le hstart)] at hle
      obtain rfl : length = 0 := Nat.le_zero.mp hle
      rw [List.take_zero, ← htake, List.take_zero]

theorem Printing.get {str : Text} {text : List Byte} (hstr : str.Gives output text)
    (h : Printing w room s input output steps m) {i : ℕ} {b : Byte} (hb : text[i]? = some b) :
    str.get (w := w) i m = .ok (b, m) := by
  obtain ⟨hi, rfl⟩ := List.getElem?_eq_some_iff.mp hb
  cases str with
  | bytes _ =>
    obtain rfl := hstr
    exact get_bytes hi m
  | out start length =>
    obtain ⟨hlength, htake⟩ := hstr
    have hbyte : output[start + i]? = some text[i] := by
      rw [← hb, ← htake, List.getElem?_take_of_lt (hlength ▸ hi), List.getElem?_drop]
    exact readOut_run (w := w) (h.written _ _ hbyte) rfl

/-- A byte is appended. -/
theorem Printing.emitted (h : Printing w room s input output steps m) (hroom : output.length < room)
    (b : Byte) : Printing w room s input (output ++ [b]) steps (emitted m b) := by
  have hcur := h.outCur
  refine ⟨?_, h.rest, h.cursor, ?_, fun i c hc => ?_, h.steps⟩
  · rw [List.length_append, List.length_singleton, ← hcur, Demangle.emitted]
    exact congrArg (fun state : State => { state with
      outCur := m.state.outCur + 1
      kept := (wrote m m.state.outCur (.put b)).state.kept }) h.state
  · exact (List.length_set).trans h.room
  · show (m.store.out.set m.state.outCur ⟨b, true⟩)[i]? = some ⟨c, true⟩
    rw [hcur]
    rcases Nat.lt_trichotomy i output.length with hi | rfl | hi
    · rw [List.getElem?_append_left hi] at hc
      rw [List.getElem?_set_ne (Nat.ne_of_gt hi)]
      exact h.written i c hc
    · rw [List.getElem?_concat_length, Option.some_inj] at hc
      rw [List.getElem?_set_self (h.room ▸ hroom), hc]
    · rw [List.getElem?_eq_none (by rw [List.length_append, List.length_singleton]; omega)] at hc
      cases hc

/-- A NUL behind what has been printed. -/
theorem Printing.terminated (h : Printing w room s input output steps m)
    (hroom : output.length < room) : Config w room s input output steps (terminated m) := by
  refine ⟨⟨?_, h.rest, h.cursor, (List.length_set).trans h.room, fun i c hc => ?_, h.steps⟩, ?_⟩
  · exact congrArg (fun state : State => { state with
      kept := (wrote m m.state.outCur .terminate).state.kept }) h.state
  · show (m.store.out.set m.state.outCur ⟨0, true⟩)[i]? = some ⟨c, true⟩
    have hi := (List.getElem?_eq_some_iff.mp hc).1
    rw [h.outCur, List.getElem?_set_ne (Nat.ne_of_gt hi)]
    exact h.written i c hc
  · show (m.store.out.set m.state.outCur ⟨0, true⟩)[output.length]? = some ⟨0, true⟩
    rw [h.outCur, List.getElem?_set_self (h.room ▸ hroom)]

/-- The loop of `Append`, from index `i` on. -/
theorem Printing.appendLoop {str : Text} {text : List Byte} (hstr : str.Gives output text) :
    ∀ (n i : ℕ) (m : Machine State Store),
      Printing w room s input (output ++ text.take i) steps m → i + n = text.length →
        output.length + text.length < room →
          ∃ m', appendLoop (w := w) str n i m = .ok ((), m') ∧
            Printing w room s input (output ++ text) steps m'
  | 0, i, m, h, hn, _ => by
    obtain rfl : i = text.length := hn
    rw [List.take_length] at h
    exact ⟨m, rfl, h⟩
  | n + 1, i, m, h, hn, hroom => by
    have hi : i < text.length := by omega
    have hlen : (output ++ text.take i).length = output.length + i := by
      rw [List.length_append, List.length_take, Nat.min_eq_left (Nat.le_of_lt hi)]
    have hget := h.get (w := w) (hstr.append _) (List.getElem?_eq_getElem hi)
    have hspace : m.store.out.length - m.state.outCur > 1 := by
      rw [h.room, h.outCur, hlen]
      omega
    have hemitted := h.emitted (hlen ▸ by omega) text[i]
    rw [List.append_assoc, List.take_append_getElem] at hemitted
    obtain ⟨m', hrun, h'⟩ := Printing.appendLoop hstr n (i + 1) _ hemitted (by omega) hroom
    exact ⟨m', (appendLoop_step hspace hget).trans hrun, h'⟩

/-- `Append` of a text that there is room for. -/
theorem Config.appendText {str : Text} {text : List Byte} (hstr : str.Gives output text)
    (h : Config w room s input output steps m) (hover : s.overflowed = false)
    (hroom : output.length + text.length < room) :
    ∃ m', Demangle.append (w := w) str m = .ok ((), m') ∧
      Config w room s input (output ++ text) steps m' := by
  obtain ⟨m', hloop, h'⟩ := Printing.appendLoop hstr text.length 0 m
    (by rw [List.take_zero, List.append_nil]; exact h.toPrinting) (Nat.zero_add _) hroom
  rw [← hstr.length] at hloop
  rw [← List.length_append] at hroom
  refine ⟨Demangle.terminated m', ?_, h'.terminated hroom⟩
  rw [append_run hloop, h'.overflowed, hover, if_neg Bool.false_ne_true, if_pos]
  rw [h'.outCur, h'.room]
  exact hroom

/-- `prev_name` after a text that was appended at `start`. -/
def State.remember (state : State) (start : ℕ) (text : List Byte) : State :=
  if isAlpha (text.headD 0) || text.headD 0 == '_'.toUInt8 then
    { state with prevName := some start, prevNameLength := text.length }
  else state

/-- `MaybeAppendWithLength` of a text that there is room for, unless a space is needed. -/
theorem Config.maybeAppendWithLength {str : Text} {text : List Byte} (hstr : str.Gives output text)
    (h : Config w room s input output steps m) (happend : s.append = true)
    (hover : s.overflowed = false) (hne : text ≠ [])
    (hangles : text.headD 0 = '<'.toUInt8 → output.getLast? ≠ some '<'.toUInt8)
    (hroom : output.length + text.length < room) :
    After (maybeAppendWithLength str : Parser w Bool)
      (Config w room (s.remember output.length text) input (output ++ text) steps) m := by
  obtain ⟨first, tail, rfl⟩ := List.exists_cons_of_ne_nil hne
  have hget := h.get hstr (List.getElem?_cons_zero)
  have hseparate : separateAngles (w := w) str m = .ok ((), m) := by
    rw [separateAngles_run hget]
    split
    · rename_i hfirst
      obtain ⟨hfirst, hpos⟩ := hfirst
      have hlast := hangles hfirst
      rw [h.outCur] at hpos
      obtain ⟨last, hbyte⟩ : ∃ last, output[output.length - 1]? = some last :=
        ⟨_, List.getElem?_eq_getElem (by omega)⟩
      rw [List.getLast?_eq_getElem?, hbyte] at hlast
      have hread := readOut_run (w := w) (h.written _ _ hbyte) rfl
      rw [h.outCur, bind_ok hread, if_neg fun heq => hlast (congrArg some (beq_iff_eq.mp heq))]
      rfl
    · rfl
  obtain ⟨m', hname, h'⟩ := h.appendText hstr hover hroom
  have hget' := h'.get (hstr.append _) (List.getElem?_cons_zero)
  have hlength : str.length > 0 := by
    rw [hstr.length, List.length_cons]
    exact Nat.succ_pos _
  have hrun : Demangle.maybeAppendWithLength (w := w) str m = .ok (true,
      if m'.state.overflowed = false ∧ (isAlpha first || first == '_'.toUInt8) = true then
        named m' m.state.outCur str.length else m') := by
    rw [Demangle.maybeAppendWithLength, saving_run, h.append, happend, decide_eq_true hlength,
      Bool.and_self, if_pos rfl, bind_ok hseparate, bind_ok (appendName_run hname hget')]
    rfl
  refine ⟨_, hrun, ?_⟩
  have hwritten : m'.state.overflowed = false := h'.overflowed.trans hover
  rw [State.remember, List.headD_cons]
  by_cases hfirst : (isAlpha first || first == '_'.toUInt8) = true
  · rw [if_pos hfirst, if_pos ⟨hwritten, hfirst⟩, h.outCur, hstr.length]
    exact h'.set (g := fun state => { state with
      prevName := some output.length
      prevNameLength := ((first :: tail).length : ℕ) }) fun _ _ _ => rfl
  · rw [if_neg hfirst, if_neg fun hboth => hfirst hboth.2]
    exact h'

/-- Nothing is appended while the output is switched off. -/
theorem Config.muted (h : Config w room s input output steps m) (happend : s.append = false)
    (str : Text) : After (Demangle.maybeAppendWithLength str : Parser w Bool)
      (Config w room s input output steps) m := by
  refine ⟨m, ?_, h⟩
  rw [Demangle.maybeAppendWithLength, saving_run, h.append, happend, Bool.false_and,
    if_neg Bool.false_ne_true]
  rfl

theorem Config.mutedAll (happend : s.append = false) : ∀ (texts : List String)
    (m : Machine State Store), Config w room s input output steps m →
      After (appendAll texts : Parser w Bool) (Config w room s input output steps) m
  | [], _, h => ⟨_, rfl, h⟩
  | text :: texts, _, h =>
    let ⟨m₁, hrun, h₁⟩ := h.muted happend (.bytes (bytes text))
    After.and ⟨m₁, hrun, Config.mutedAll happend texts m₁ h₁⟩

/-! ### Separators -/

theorem Config.separator (h : Config w room s input output steps m) (happend : s.append = true)
    (hover : s.overflowed = false) (hskip : s.skipSeparator = false) (hnest : 1 ≤ s.nestLevel)
    (hroom : output.length + 2 < room) :
    After (maybeAppendSeparator : Parser w Bool)
      (Config w room s input (output ++ bytes "::") steps) m := by
  have hrun : maybeAppendSeparator (w := w) m =
      maybeAppend (w := w) "::" zero_notMem_separator m := by
    rw [maybeAppendSeparator, saving_run, h.skipSeparator, hskip, if_neg Bool.false_ne_true,
      h.nestLevel, if_pos hnest]
  have hgives : (Text.bytes (bytes "::")).Gives output (bytes "::") := rfl
  obtain ⟨m', hrun', h'⟩ := h.maybeAppendWithLength hgives happend hover (by decide)
    (fun hfirst => absurd hfirst (by decide)) hroom
  exact ⟨m', hrun.trans hrun', h'⟩

theorem Config.no_separator (h : Config w room s input output steps m)
    (hskip : s.skipSeparator = false) (hnest : ¬1 ≤ s.nestLevel) :
    After (maybeAppendSeparator : Parser w Bool) (Config w room s input output steps) m := by
  refine ⟨m, ?_, h⟩
  rw [maybeAppendSeparator, saving_run, h.skipSeparator, hskip, if_neg Bool.false_ne_true,
    h.nestLevel, if_neg hnest]
  rfl

/-- `MaybeCancelLastSeparator` behind a separator. -/
theorem Config.cancelSeparator (h : Config w room s input (output ++ bytes "::") steps m)
    (happend : s.append = true) (hnest : 1 ≤ s.nestLevel) (before : ℕ) :
    ∃ m', maybeCancelLastSeparator (w := w) before m = .ok ((), m') ∧
      Config w room s input output steps m' := by
  have hcur : m.state.outCur = output.length + 2 := h.outCur.trans List.length_append
  have hcond : (m.state.nestLevel ≥ 1 && m.state.append && m.state.outCur ≥ 2) = true := by
    rw [h.nestLevel, h.append, happend, hcur, decide_eq_true hnest]
    simp
  have hlast : output.length + 1 < m.store.out.length := by
    have hbyte := h.written (output.length + 1) ':'.toUInt8
      (by rw [List.getElem?_append_right (Nat.le_add_right ..), Nat.add_sub_cancel_left]; rfl)
    exact (List.getElem?_eq_some_iff.mp hbyte).1
  refine ⟨_, maybeCancelLastSeparator_run before hcond (by omega), ?_⟩
  refine ⟨⟨?_, h.rest, h.cursor, (List.length_set).trans h.room, fun i b hb => ?_, h.steps⟩, ?_⟩
  · rw [cancelled, hcur, Nat.add_sub_cancel]
    exact congrArg (fun state : State => { state with
      outCur := output.length
      kept := (wrote m output.length (.cut (output.length + 2 == before + 2))).state.kept }) h.state
  · have hi := (List.getElem?_eq_some_iff.mp hb).1
    show (m.store.out.set (m.state.outCur - 2) ⟨0, true⟩)[i]? = some ⟨b, true⟩
    rw [hcur, Nat.add_sub_cancel, List.getElem?_set_ne (Nat.ne_of_gt hi)]
    exact h.written i b (by rw [List.getElem?_append_left hi]; exact hb)
  · show (m.store.out.set (m.state.outCur - 2) ⟨0, true⟩)[output.length]? = some ⟨0, true⟩
    rw [hcur, Nat.add_sub_cancel, List.getElem?_set_self (Nat.lt_of_succ_lt hlast)]

/-! ### Guards -/

theorem Config.entered (level : Level) (h : Config w room s input output steps m) :
    Config w room (s.setLevel (s.level level + 1) level) input output steps (entered m level) := by
  have hset := h.set (g := fun state => state.setLevel (s.level level + 1) level)
    (by cases level <;> exact fun _ _ _ => rfl)
  rw [Demangle.entered, h.level]
  exact hset

/-- A level that may be entered is left again. -/
theorem Config.guardLevel {s' : State} {input' output' : List Byte} {steps' : ℕ}
    {f : Parser w Bool} (level : Level) (h : Config w room s input output steps m)
    (hlt : s.level level < maxLevel level) (hlevel : s'.level level = s.level level)
    (hbody : After f (Config w room (s'.setLevel (s.level level + 1) level) input' output' steps')
      (Demangle.entered m level)) :
    After (guardLevel level f) (Config w room s' input' output' steps') m := by
  have henter : enterLevel (w := w) level m = .ok (true, Demangle.entered m level) :=
    if_pos ((h.level level).symm ▸ hlt)
  obtain ⟨m', hrun, h'⟩ := hbody
  have hinner : m'.state.level level = s.level level + 1 := by
    rw [h'.level, level_setLevel, if_pos rfl]
  have hleave : leaveLevel (w := w) level m' =
      .ok ((), ⟨m'.state.setLevel (s.level level) level, m'.store⟩) := by
    rw [leaveLevel, hinner, if_pos (Nat.succ_pos _), Nat.add_sub_cancel]
  have hrestored : (s'.setLevel (s.level level + 1) level).setLevel (s.level level) level = s' := by
    rw [← hlevel]
    cases level <;> rfl
  have hleft := h'.set (g := fun state => state.setLevel (s.level level) level)
    (by cases level <;> exact fun _ _ _ => rfl)
  rw [hrestored] at hleft
  refine ⟨_, ?_, hleft⟩
  rw [Demangle.guardLevel, bind_ok henter, if_pos rfl, bind_ok hrun, bind_ok hleave]
  rfl

/-- The machine in the body of a depth guard. -/
def deeper (m : Machine State Store) : Machine State Store :=
  Demangle.spent (Demangle.entered m .depth) 1

theorem Config.deeper (h : Config w room s input output (1 + steps) m) :
    Config w room { s with parseDepth := s.parseDepth + 1 } input output steps (deeper m) :=
  (h.entered .depth).spent (Nat.le_refl 1)

theorem Config.guardDepth {s' : State} {input' output' : List Byte} {steps' : ℕ}
    {f : Parser w Bool} (h : Config w room s input output (1 + steps) m)
    (hlt : s.parseDepth < maxLevel .depth) (hlevel : s'.parseDepth = s.parseDepth)
    (hbody : After f (Config w room { s' with parseDepth := s.parseDepth + 1 } input'
      output' steps')
      (Demangle.deeper m)) :
    After (guardDepth f) (Config w room s' input' output' steps') m := by
  have hleft : 0 < (Demangle.entered m .depth).store.stepsRemaining :=
    Nat.lt_of_lt_of_le (Nat.add_pos_left Nat.one_pos steps) h.steps
  have hcount : countStep (w := w) (Demangle.entered m .depth) = .ok (true, Demangle.deeper m) :=
    if_pos hleft
  exact h.guardLevel .depth hlt hlevel (After.and ⟨_, hcount, hbody⟩)

/-- A parse function that is refused takes no more than its steps. -/
theorem Config.refused {c : Byte} {k : ℕ} {f : Parser w Bool} (hf : Refused c k f)
    (h : Config w room s input output (k + steps) m) (hc : input.headD 0 = c) :
    Fails f (Config w room s input output steps) m :=
  let ⟨_, hj, hrun⟩ := hf m h.cursor (h.byteAt.trans hc)
  ⟨_, hrun, h.spent hj⟩

/-- A round of a loop that reads something. -/
theorem Config.round {s' : State} {input' output' : List Byte} {steps' : ℕ} {f : Parser w Bool}
    {P : Machine State Store → Prop} (h : Config w room s input output steps m)
    (hlt : input'.length < input.length)
    (hround : After f (Config w room s' input' output' steps') m)
    (hrounds : ∀ m₁, Config w room s' input' output' steps' m₁ → After (zeroOrMore f) P m₁) :
    After (zeroOrMore f) P m := by
  obtain ⟨m₁, hrun, h₁⟩ := hround
  refine After.zeroOrMore ⟨m₁, hrun, ?_, hrounds m₁ h₁⟩
  rw [h.remaining, h₁.remaining]
  exact hlt

/-- A loop over parts of one byte each, up to a byte at which the next part is refused. -/
theorem Config.each {f : Parser w Bool} {letters : List Byte} {stop : Byte} {j k : ℕ}
    (hletter : ∀ c ∈ letters, ∀ (input : List Byte) (steps : ℕ) (m : Machine State Store),
      Config w room s (c :: input) output (j + steps) m →
        After f (Config w room s input output steps) m)
    (hstop : Refused stop k f) (hinput : input.headD 0 = stop) :
    ∀ (parts : List Byte) (m : Machine State Store), (∀ c ∈ parts, c ∈ letters) →
      Config w room s (parts ++ input) output (j * parts.length + (k + steps)) m →
        After (zeroOrMore f) (Config w room s input output steps) m
  | [], m, _, h => by
    rw [List.length_nil, Nat.mul_zero, Nat.zero_add] at h
    exact (h.refused hstop hinput).zeroOrMore
  | c :: parts, m, hparts, h => by
    have hsteps : j * (c :: parts).length + (k + steps) = j + (j * parts.length + (k + steps)) := by
      rw [List.length_cons, Nat.mul_succ]
      omega
    rw [hsteps] at h
    refine h.round (Nat.lt_succ_self _) (hletter c (hparts c (List.mem_cons_self ..)) _ _ _ h) ?_
    exact fun m₁ h₁ => Config.each hletter hstop hinput parts m₁
      (fun d hd => hparts d (List.mem_cons_of_mem _ hd)) h₁

end Demangle

end NgLog
