import Mathlib.Algebra.Ring.Int.Defs
import Mathlib.Data.List.Chain
import Mathlib.Data.List.TakeWhile
import NgLog.Support.Delimiters
import NgLog.VLog.Sites

/-!
# The segments of the module flag

The value of `--vmodule` is meant to be a list of segments between commas, each of them a pattern,
an equals sign and a level. `VLOG2Initializer` does not split it at the commas: it looks for the
next equals sign, takes what is before it for a pattern, and only then goes on behind the next
comma. So a segment without an equals sign becomes part of the next pattern, a second equals sign
becomes part of the level, and what follows the digits of a level is dropped.

`parseSegments` is the same parser on the segments, with the text that has been left in front of the
next pattern. Entries and segments are compared on it.

## Main definitions

* `segments`, `entryOf` — the segments, and the entry of one of the form pattern=integer
* `readsLevel` — the segments for which the parser finds a level
* `Separated` — the lists of segments that the parser reads as they are meant

## Main results

* `parseVModule_eq_parseSegments` — the parser in terms of segments
* `parseSegments_eq_filterMap_iff` — when the entries are those of the segments
* `vlog2Initializer_entries_iff` — the entries of `vmodule_list`
-/

namespace NgLog

namespace VLog

/-- `','`. -/
def comma : Byte := 44

/-- `'='`. -/
def equals : Byte := 61

/-- The segments of the flag. -/
def segments (vmodule : List Byte) : List (List Byte) := vmodule.splitOn comma

/-- Whether a minus sign begins a text, and what follows a sign. -/
def splitSign (text : List Byte) : Bool × List Byte :=
  (text.head? = some 45, if text.head? = some 45 ∨ text.head? = some 43 then text.tail else text)

/-- The integer of a sign and digits. -/
def signedValue (negative : Bool) (digits : List Byte) : Int :=
  let magnitude : Int := digits.foldl (fun value c => value * 10 + (c.toNat - 48)) 0
  if negative then -magnitude else magnitude

/-- The integer that a text is: digits, with a sign or not, in the range of `int`. -/
def integerOf (text : List Byte) : Option Int32 :=
  let (negative, digits) := splitSign text
  let value := signedValue negative digits
  if digits.isEmpty = false ∧ digits.all isDigit = true ∧ -2 ^ 31 ≤ value ∧ value < 2 ^ 31 then
    some (Int32.ofInt value)
  else none

/-- What stands before and behind the last equals sign of a segment. -/
def splitLast (segment : List Byte) : Option (List Byte × List Byte) :=
  if equals ∈ segment then
    some ((segment.reverse.dropWhile (· ≠ equals)).tail.reverse,
      (segment.reverse.takeWhile (· ≠ equals)).reverse)
  else none

/-- The pattern and the level of a segment of the form pattern=integer. -/
def entryOf (segment : List Byte) : Option (List Byte × Int32) :=
  (splitLast segment).bind fun parts => (integerOf parts.2).map fun level => (parts.1, level)

/-- What stands before the first equals sign of a segment, and what `sscanf` reads behind it. -/
def patternOf (segment : List Byte) : List Byte := segment.takeWhile (· ≠ equals)

@[inherit_doc patternOf]
def readsLevel (segment : List Byte) : Option Int32 :=
  scanInt (segment.dropWhile (· ≠ equals)).tail

/-- `VLOG2Initializer` on segments. What has been left in front of the next pattern is `left`. -/
def parseSegments : (left : List Byte) → List (List Byte) → List (List Byte × Int32)
  | _, [] => []
  | left, segment :: rest =>
    if equals ∈ segment then
      ((readsLevel segment).map fun level => (left ++ patternOf segment, level)).toList ++
        parseSegments [] rest
    else parseSegments (left ++ segment ++ [comma]) rest

/-! ### Integers -/

variable {text rest segment left pattern : List Byte} {level : Int32}

theorem isSpace_of_isDigit {c : Byte} (h : isDigit c = true) : isSpace c = false := by
  simp only [isDigit, decide_eq_true_eq, UInt8.le_iff_toNat_le] at h
  simp only [isSpace, decide_eq_false_iff_not, UInt8.le_iff_toNat_le, not_or, not_and]
  have h48 : (48 : Byte).toNat = 48 := rfl
  have h13 : (13 : Byte).toNat = 13 := rfl
  refine ⟨?_, fun _ => by omega⟩
  rintro rfl
  exact absurd h.1 (by decide)

theorem scanInt_eq (text : List Byte) :
    scanInt text =
      let (negative, rest) := splitSign (text.dropWhile isSpace)
      let digits := rest.takeWhile isDigit
      if digits.isEmpty then none else some (Int32.ofInt (signedValue negative digits)) := by
  simp [scanInt, splitSign, signedValue]

theorem splitSign_append_comma (text rest : List Byte) :
    splitSign (text ++ comma :: rest) = ((splitSign text).1,
      (splitSign text).2 ++ comma :: rest) := by
  cases text with
  | nil => simp [splitSign, comma]
  | cons c text =>
    by_cases hsign : c = 45 ∨ c = 43 <;> simp [splitSign, hsign]

theorem takeWhile_append_comma {p : Byte → Bool} (hp : p comma = false) (text rest : List Byte) :
    (text ++ comma :: rest).takeWhile p = text.takeWhile p := by
  induction text with
  | nil => simp [hp]
  | cons c text ih =>
    by_cases hc : p c = true <;> simp [hc, ih]

theorem dropWhile_append_comma {p : Byte → Bool} (hp : p comma = false) (text rest : List Byte) :
    (text ++ comma :: rest).dropWhile p = text.dropWhile p ++ comma :: rest := by
  induction text with
  | nil => simp [hp]
  | cons c text ih =>
    by_cases hc : p c = true <;> simp [hc, ih]

/-- `sscanf` does not read beyond a comma. -/
theorem scanInt_append_comma (text rest : List Byte) :
    scanInt (text ++ comma :: rest) = scanInt text := by
  have hcomma : isDigit comma = false := by decide
  rw [scanInt_eq, scanInt_eq, dropWhile_append_comma (by decide), splitSign_append_comma]
  simp only [takeWhile_append_comma hcomma]

/-- What an integer consists of. -/
theorem integerOf_eq_some (h : integerOf text = some level) :
    (splitSign text).2 ≠ [] ∧ (∀ c ∈ (splitSign text).2, isDigit c = true) ∧
      Int32.ofInt (signedValue (splitSign text).1 (splitSign text).2) = level := by
  simp only [integerOf] at h
  split at h
  · next hinteger =>
    exact ⟨by simpa using hinteger.1, by simpa using hinteger.2.1, Option.some.inj h⟩
  · exact absurd h nofun

/-- The bytes of an integer are digits and signs. -/
theorem mem_of_integerOf (h : integerOf text = some level) {c : Byte} (hc : c ∈ text) :
    isDigit c = true ∨ c = 45 ∨ c = 43 := by
  obtain ⟨_, hdigits, _⟩ := integerOf_eq_some h
  cases text with
  | nil => exact absurd hc List.not_mem_nil
  | cons d text =>
    by_cases hsign : (d :: text).head? = some 45 ∨ (d :: text).head? = some 43
    · rw [splitSign, if_pos hsign] at hdigits
      rcases List.mem_cons.mp hc with rfl | hc
      · exact Or.inr (by simpa using hsign)
      · exact Or.inl (hdigits c hc)
    · rw [splitSign, if_neg hsign] at hdigits
      exact Or.inl (hdigits c hc)

/-- An integer is read by `sscanf`. -/
theorem scanInt_of_integerOf (h : integerOf text = some level) : scanInt text = some level := by
  obtain ⟨hne, hdigits, hlevel⟩ := integerOf_eq_some h
  have hblank : text.dropWhile isSpace = text := by
    cases text with
    | nil => rfl
    | cons c text =>
      have hc : isSpace c = false := by
        rcases mem_of_integerOf h (List.mem_cons_self (l := text)) with hc | rfl | rfl
        · exact isSpace_of_isDigit hc
        · decide
        · decide
      simp [hc]
  have htake : (splitSign text).2.takeWhile isDigit = (splitSign text).2 :=
    List.takeWhile_eq_self_iff.mpr hdigits
  rw [scanInt_eq, hblank]
  simp [htake, hne, hlevel]

/-! ### Segments -/

theorem equals_notMem_of_integerOf (h : integerOf text = some level) : equals ∉ text := by
  intro hmem
  rcases mem_of_integerOf h hmem with h | h | h <;> exact absurd h (by decide)

/-- What stands before a byte, up to it. -/
theorem splitLast_append {integer : List Byte} (h : equals ∉ integer) (pattern : List Byte) :
    splitLast (pattern ++ equals :: integer) = some (pattern, integer) := by
  have hreverse : (pattern ++ equals :: integer).reverse =
      integer.reverse ++ equals :: pattern.reverse := by simp
  have hnot : equals ∉ integer.reverse := mt List.mem_reverse.mp h
  rw [splitLast, hreverse, takeWhile_ne_append hnot, dropWhile_ne_append hnot]
  simp

theorem splitLast_of_notMem (h : equals ∉ segment) : splitLast segment = none := if_neg h

/-- **The segments of the form pattern=integer** are those with an entry. -/
theorem entryOf_eq_some_iff {pattern : List Byte} :
    entryOf segment = some (pattern, level) ↔
      ∃ integer, segment = pattern ++ equals :: integer ∧ integerOf integer = some level := by
  constructor
  · intro h
    by_cases hmem : equals ∈ segment
    · obtain ⟨back, front, hreverse, hback⟩ :=
        List.eq_append_cons_of_mem (List.mem_reverse.mpr hmem)
      have hsegment : segment = front.reverse ++ equals :: back.reverse := by
        rw [← List.reverse_reverse segment, hreverse]
        simp
      rw [hsegment, entryOf, splitLast_append (mt List.mem_reverse.mp hback)] at h
      simp only [Option.bind_some, Option.map_eq_some_iff, Prod.mk.injEq] at h
      obtain ⟨_, hinteger, rfl, rfl⟩ := h
      exact ⟨back.reverse, hsegment, hinteger⟩
    · rw [entryOf, splitLast_of_notMem hmem] at h
      exact absurd h nofun
  · rintro ⟨integer, rfl, hinteger⟩
    rw [entryOf, splitLast_append (equals_notMem_of_integerOf hinteger)]
    simp [hinteger]

theorem entryOf_of_notMem (h : equals ∉ segment) : entryOf segment = none := by
  rw [entryOf, splitLast_of_notMem h]
  rfl

/-- A segment with one equals sign is read as it is meant. -/
theorem readsLevel_of_entryOf (h : entryOf segment = some (pattern, level))
    (hone : equals ∉ pattern) :
    readsLevel segment = some level ∧ patternOf segment = pattern := by
  obtain ⟨integer, rfl, hinteger⟩ := entryOf_eq_some_iff.mp h
  rw [readsLevel, patternOf, takeWhile_ne_append hone, dropWhile_ne_append hone]
  exact ⟨scanInt_of_integerOf hinteger, rfl⟩

theorem equals_notMem_patternOf (segment : List Byte) : equals ∉ patternOf segment := by
  intro hmem
  have hne := List.mem_takeWhile_imp hmem
  simp at hne

/-! ### The parser -/

theorem parseVModule_of_notMem (h : equals ∉ text) : parseVModule text = [] := by
  have hnone := dropWhile_ne_of_notMem h
  rw [parseVModule]
  split
  · rfl
  · next hsep =>
    rw [show (61 : Byte) = equals from rfl, hnone] at hsep
    cases hsep

/-- A text with an equals sign, and what follows the next comma. -/
theorem parseVModule_append {value : List Byte} (hpattern : equals ∉ pattern) :
    parseVModule (pattern ++ equals :: value) =
      ((scanInt value).map fun level => (pattern, level)).toList ++
        parseVModule (value.dropWhile (· ≠ comma)).tail := by
  have htake := takeWhile_ne_append hpattern value
  have hdrop := dropWhile_ne_append hpattern value
  conv => lhs; rw [parseVModule]
  split
  · next hsep =>
    rw [show (61 : Byte) = equals from rfl, hdrop] at hsep
    exact absurd hsep (List.cons_ne_nil _ _)
  · next hsep =>
    rw [show (61 : Byte) = equals from rfl, hdrop] at hsep
    obtain ⟨rfl, rfl⟩ := List.cons.inj hsep
    rw [show (61 : Byte) = equals from rfl, htake]
    simp only
    split
    · next hcomma =>
      rw [show (44 : Byte) = comma from rfl] at hcomma
      rw [hcomma, List.tail_nil, parseVModule_of_notMem List.not_mem_nil, List.append_nil]
    · next hcomma =>
      rw [show (44 : Byte) = comma from rfl] at hcomma
      rw [hcomma, List.tail_cons]

theorem parseVModule_last {value : List Byte} (hpattern : equals ∉ pattern)
    (hvalue : comma ∉ value) :
    parseVModule (pattern ++ equals :: value) =
      ((scanInt value).map fun level => (pattern, level)).toList := by
  rw [parseVModule_append hpattern, dropWhile_ne_of_notMem hvalue, List.tail_nil,
    parseVModule_of_notMem List.not_mem_nil, List.append_nil]

theorem parseVModule_cons {value : List Byte} (hpattern : equals ∉ pattern) (hvalue : comma ∉ value)
    (rest : List Byte) :
    parseVModule (pattern ++ equals :: (value ++ comma :: rest)) =
      ((scanInt value).map fun level => (pattern, level)).toList ++ parseVModule rest := by
  rw [parseVModule_append hpattern, scanInt_append_comma, dropWhile_ne_append hvalue,
    List.tail_cons]

/-- What a segment with an equals sign is for the parser. -/
theorem patternOf_append {value : List Byte} (hpattern : equals ∉ pattern) :
    patternOf (pattern ++ equals :: value) = pattern ∧
      readsLevel (pattern ++ equals :: value) = scanInt value := by
  rw [readsLevel, patternOf, takeWhile_ne_append hpattern, dropWhile_ne_append hpattern,
    List.tail_cons]
  exact ⟨rfl, rfl⟩

/-- **The parser in terms of segments.** By induction over the segments. -/
theorem parseVModule_eq_parseSegments (hleft : equals ∉ left) (text : List Byte) :
    parseVModule (left ++ text) = parseSegments left (segments text) := by
  induction text using delimited_induction comma generalizing left with
  | last text hcomma =>
    rw [segments, List.splitOn_eq_singleton hcomma, parseSegments]
    by_cases hequals : equals ∈ text
    · obtain ⟨pattern, value, rfl, hpattern⟩ := List.eq_append_cons_of_mem hequals
      obtain ⟨hname, hlevel⟩ := @patternOf_append pattern value hpattern
      have hvalue : comma ∉ value := by
        intro hmem
        exact hcomma (by simp [hmem])
      have hboth : equals ∉ left ++ pattern := by simp [hleft, hpattern]
      rw [if_pos hequals, ← List.append_assoc, parseVModule_last hboth hvalue, hlevel, hname,
        parseSegments, List.append_nil]
    · rw [if_neg hequals, parseSegments, parseVModule_of_notMem (by simp [hleft, hequals])]
  | cons segment rest hsegment ih =>
    rw [segments, List.splitOn_append_cons_self_of_not_mem hsegment, parseSegments]
    by_cases hequals : equals ∈ segment
    · obtain ⟨pattern, value, rfl, hpattern⟩ := List.eq_append_cons_of_mem hequals
      obtain ⟨hname, hlevel⟩ := @patternOf_append pattern value hpattern
      have hvalue : comma ∉ value := by
        intro hmem
        exact hsegment (by simp [hmem])
      have hboth : equals ∉ left ++ pattern := by simp [hleft, hpattern]
      have hrest : parseVModule rest = parseSegments [] (segments rest) := ih List.not_mem_nil
      have hsplit : left ++ (pattern ++ equals :: value ++ comma :: rest) =
          left ++ pattern ++ equals :: (value ++ comma :: rest) := by simp
      rw [if_pos hequals, hsplit, parseVModule_cons hboth hvalue, hlevel, hname, hrest]
      rfl
    · have hboth : equals ∉ left ++ segment ++ [comma] := by
        have hne : equals ≠ comma := by decide
        simp [hleft, hequals, hne]
      have hsplit : left ++ (segment ++ comma :: rest) = left ++ segment ++ [comma] ++
          rest := by simp
      rw [if_neg hequals, hsplit, ih hboth]
      rfl

/-! ### When segments are read as they are meant -/

/-- The lists of segments that the parser reads as they are meant. -/
structure Separated (list : List (List Byte)) : Prop where
  /-- The pattern of a segment of the form pattern=integer has no equals sign. -/
  one_equals : ∀ segment ∈ list, ∀ entry, entryOf segment = some entry → equals ∉ entry.1
  /-- Where a level is found, the segment is of that form. -/
  form : ∀ segment ∈ list, equals ∈ segment → readsLevel segment ≠ none → entryOf segment ≠ none
  /-- A segment of that form does not follow one without an equals sign. -/
  follows : list.IsChain fun before segment => entryOf segment ≠ none → equals ∈ before

theorem equals_notMem_parseSegments {list : List (List Byte)} (hleft : equals ∉ left)
    {entry : List Byte × Int32} (h : entry ∈ parseSegments left list) : equals ∉ entry.1 := by
  induction list generalizing left with
  | nil => exact absurd h List.not_mem_nil
  | cons segment rest ih =>
    rw [parseSegments] at h
    by_cases hequals : equals ∈ segment
    · rw [if_pos hequals] at h
      rcases List.mem_append.mp h with h | h
      · simp only [Option.mem_toList, Option.map_eq_some_iff] at h
        obtain ⟨level, _, rfl⟩ := h
        simp [hleft, equals_notMem_patternOf]
      · exact ih List.not_mem_nil h
    · rw [if_neg hequals] at h
      have hne : equals ≠ comma := by decide
      exact ih (by simp [hleft, hequals, hne]) h

/-- Where every pattern has no equals sign, no entry of a segment is missed. -/
theorem length_filterMap_le {list : List (List Byte)}
    (hone : ∀ segment ∈ list, ∀ entry, entryOf segment = some entry → equals ∉ entry.1)
    (left : List Byte) : (list.filterMap entryOf).length ≤ (parseSegments left list).length := by
  induction list generalizing left with
  | nil => simp
  | cons segment rest ih =>
    have hrest := ih fun segment hsegment => hone segment (List.mem_cons_of_mem _ hsegment)
    rw [parseSegments]
    by_cases hequals : equals ∈ segment
    · rw [if_pos hequals, List.length_append]
      have hlength := hrest []
      cases hentry : entryOf segment with
      | none =>
        rw [List.filterMap_cons_none hentry]
        omega
      | some entry =>
        have hreads :=
          (readsLevel_of_entryOf hentry (hone segment List.mem_cons_self entry hentry)).1
        rw [List.filterMap_cons_some hentry, hreads]
        simp only [Option.map_some, Option.toList_some, List.length_cons, List.length_nil]
        omega
    · rw [if_neg hequals, List.filterMap_cons_none (entryOf_of_notMem hequals)]
      exact hrest _

/-- The entries are those of the segments, one by one. The first segment must not be of the form
pattern=integer if text has been left in front of it. -/
theorem parseSegments_eq_iff {list : List (List Byte)}
    (hone : ∀ segment ∈ list, ∀ entry, entryOf segment = some entry → equals ∉ entry.1)
    (left : List Byte) :
    parseSegments left list = list.filterMap entryOf ↔
      (∀ segment ∈ list, equals ∈ segment → readsLevel segment ≠ none → entryOf segment ≠ none) ∧
        (list.IsChain fun before segment => entryOf segment ≠ none → equals ∈ before) ∧
        ∀ segment ∈ list.head?, entryOf segment ≠ none → left = [] := by
  induction list generalizing left with
  | nil => simp [parseSegments]
  | cons segment rest ih =>
    have honeRest : ∀ segment ∈ rest, ∀ entry, entryOf segment = some entry → equals ∉ entry.1 :=
      fun segment hsegment => hone segment (List.mem_cons_of_mem _ hsegment)
    have hrest := ih honeRest
    have hchain : (segment :: rest).IsChain (fun before segment =>
        entryOf segment ≠ none → equals ∈ before) ↔
          (∀ next ∈ rest.head?, entryOf next ≠ none → equals ∈ segment) ∧
            rest.IsChain fun before segment => entryOf segment ≠ none → equals ∈ before :=
      List.isChain_cons
    have hnil : parseSegments [] rest = rest.filterMap entryOf ↔
        (∀ segment ∈ rest, equals ∈ segment → readsLevel segment ≠ none → entryOf segment ≠ none) ∧
          rest.IsChain fun before segment => entryOf segment ≠ none → equals ∈ before := by
      rw [hrest]
      simp
    rw [parseSegments, hchain, List.forall_mem_cons]
    by_cases hequals : equals ∈ segment
    · rw [if_pos hequals]
      cases hentry : entryOf segment with
      | none =>
        rw [List.filterMap_cons_none hentry]
        cases hreads : readsLevel segment with
        | none => simp [hequals, hnil, hentry]
        | some level =>
          -- an entry that no segment stands for makes the list too long
          have hlength := length_filterMap_le honeRest []
          refine iff_of_false (fun heq => ?_) fun h => h.1.1 hequals (by simp) rfl
          have hsame := congrArg List.length heq
          simp only [Option.map_some, Option.toList_some, List.length_append,
            List.length_singleton] at hsame
          omega
      | some entry =>
        obtain ⟨hreads, hpattern⟩ :=
          readsLevel_of_entryOf hentry (hone segment List.mem_cons_self entry hentry)
        rw [List.filterMap_cons_some hentry, hreads, hpattern]
        simp only [Option.map_some, Option.toList_some, List.singleton_append,
          List.cons.injEq, hnil]
        simp [hequals, hentry, Prod.ext_iff, and_comm, and_assoc]
    · have hnone := entryOf_of_notMem hequals
      have hleft : left ++ segment ++ [comma] ≠ [] := by simp
      rw [if_neg hequals, List.filterMap_cons_none hnone, hrest]
      simp only [hequals, hnone, hleft, false_implies, true_and, List.head?_cons,
        Option.mem_some_iff,
        forall_eq', ne_eq, not_true_eq_false, and_true, imp_false]
      exact ⟨fun h => ⟨h.1, h.2.2, h.2.1⟩, fun h => ⟨h.1, h.2.2, h.2.1⟩⟩

/-- **The entries are those of the segments** just if the segments are separated. -/
theorem parseSegments_eq_filterMap_iff (list : List (List Byte)) :
    parseSegments [] list = list.filterMap entryOf ↔ Separated list := by
  constructor
  · intro heq
    have hone (segment : List Byte) (hsegment : segment ∈ list) (entry : List Byte × Int32)
        (hentry : entryOf segment = some entry) : equals ∉ entry.1 := by
      have hmem : entry ∈ parseSegments [] list := by
        rw [heq]
        exact List.mem_filterMap.mpr ⟨segment, hsegment, hentry⟩
      exact equals_notMem_parseSegments List.not_mem_nil hmem
    obtain ⟨hform, hfollows, _⟩ := (parseSegments_eq_iff hone []).mp heq
    exact ⟨hone, hform, hfollows⟩
  · intro h
    exact (parseSegments_eq_iff h.one_equals []).mpr ⟨h.form, h.follows, fun _ _ _ => rfl⟩

/-! ### The list of the modules -/

variable {Site : Type}

theorem map_newInfos (address : ℕ) (entries : List (List Byte × Int32)) :
    (State.newInfos address entries).map (fun info => (info.modulePattern, info.vlogLevel)) =
      entries := by
  induction entries generalizing address with
  | nil => rfl
  | cons entry entries ih =>
    obtain ⟨pattern, level⟩ := entry
    simp [State.newInfos, ih]

/-- The entries that `VLOG2Initializer` puts at the head of `vmodule_list` are those of the segments
of the form pattern=integer, in order. -/
def HeadsWithEntries (s : State Site) (flags : FlagValues) : Prop :=
  ∃ infos, (s.vlog2Initializer flags).vmoduleList = infos ++ s.vmoduleList ∧
    infos.map (fun info => (info.modulePattern, info.vlogLevel)) =
      (segments (flags.vmodule.takeWhile (· ≠ 0))).filterMap entryOf

theorem headsWithEntries_iff (s : State Site) (flags : FlagValues) :
    HeadsWithEntries s flags ↔
      parseSegments [] (segments (flags.vmodule.takeWhile (· ≠ 0))) =
        (segments (flags.vmodule.takeWhile (· ≠ 0))).filterMap entryOf := by
  have hparse := parseVModule_eq_parseSegments List.not_mem_nil (flags.vmodule.takeWhile (· ≠ 0))
  rw [List.nil_append] at hparse
  rw [← hparse]
  constructor
  · rintro ⟨infos, hlist, hinfos⟩
    have heq := List.append_cancel_right hlist
    rw [← hinfos, ← heq, map_newInfos]
  · intro h
    exact ⟨_, rfl, by rw [map_newInfos, h]⟩

/-- **The entries are those of the segments of the form pattern=integer** just if the segments of
the flag are separated. -/
theorem vlog2Initializer_entries_iff (s : State Site) (flags : FlagValues) :
    HeadsWithEntries s flags ↔ Separated (segments (flags.vmodule.takeWhile (· ≠ 0))) := by
  rw [headsWithEntries_iff, parseSegments_eq_filterMap_iff]

/-- A segment without an equals sign becomes part of the pattern of the next one. -/
theorem vlog2Initializer_joins_segments :
    ¬∀ (s : State Unit) (flags : FlagValues), HeadsWithEntries s flags := by
  intro h
  have hentries := (headsWithEntries_iff _ _).mp (h State.init ⟨bytes "foo,bar=1", 0, fun _ => 0⟩)
  exact absurd hentries (by decide +kernel)

end VLog

end NgLog
