import NgLog.Symbolize.Sections

/-!
# Looking up a symbol

`FindSymbol` reads a symbol table in batches, and takes the first symbol whose range has the
address. The result for a symbol is its name, which is read into the output.

## Main definitions

* `findSymbol` — the lookup, in batches
* `linearScan` — what is looked for, symbol by symbol

## Main results

* `searchBuf_spec`, `searchSymbols_spec` — a batch, and all batches from an index on
* `lookups_refine_scans` — both lookups that read batches give what a scan of the table gives
-/

namespace NgLog

namespace Symbolize

variable {platform : Platform} (file : File platform)

/-- `SymbolLookupResult`. -/
inductive SymbolLookupResult
  | kNotFound
  | kFound
  | kMalformed
  deriving DecidableEq

/-- `STT_TLS`. -/
def STT_TLS : BitVec 8 := 6

/-- `ELF64_ST_TYPE`, `ELF32_ST_TYPE`. -/
def Sym.type (symbol : Sym platform) : BitVec 8 := symbol.stInfo &&& 0xf

/-- The addresses of a symbol, from `start_address` to `end_address`; `none` if one overflows. -/
def Sym.addresses (symbol : Sym platform) (symbolOffset : ℕ) : Option (ℕ × ℕ) :=
  (checkedAdd uint64Max symbol.stValue.toNat symbolOffset).bind fun startAddress =>
    (checkedAdd uint64Max startAddress symbol.stSize.toNat).map fun endAddress =>
      (startAddress, endAddress)

/-- The end of `FindSymbol` for the symbol that contains the address: its result and the output. -/
def readSymbolName (strtab : Shdr platform) (symbol : Sym platform) (out : List Byte) :
    Checked (SymbolLookupResult × List Byte) :=
  if symbol.stName.toNat ≥ strtab.shSize.toNat then .ok (.kMalformed, out)
  else do
    let nameBytesAvailable ← subtract strtab.shSize.toNat symbol.stName.toNat
    let bytesAvailable :=
      if nameBytesAvailable > out.length then out.length else nameBytesAvailable
    match checkedAdd platform.sizeMax strtab.shOffset.toNat symbol.stName.toNat with
    | none => pure (.kMalformed, out)
    | some nameOffset =>
      if bytesAvailable = 0 then pure (.kMalformed, out)
      else
        match readFromOffset file bytesAvailable nameOffset with
        | none => pure (.kMalformed, List.replicate out.length 0)
        | some name =>
          if name.length = 0 ∨ 0 ∉ name then pure (.kMalformed, List.replicate out.length 0)
          else pure (.kFound, name ++ out.drop name.length)

/-- The loop of `FindSymbol` over the symbols in the buffer; `none` if none of them contains the
address. -/
def searchBuf (strtab : Shdr platform) (pc symbolOffset : ℕ) (out : List Byte) :
    List (Sym platform) → Checked (Option (SymbolLookupResult × List Byte))
  | [] => .ok none
  | symbol :: rest =>
    if symbol.type = STT_TLS then searchBuf strtab pc symbolOffset out rest
    else
      match symbol.addresses symbolOffset with
      | none => searchBuf strtab pc symbolOffset out rest
      | some (startAddress, endAddress) =>
        if symbol.stValue ≠ 0 ∧ symbol.stShndx ≠ 0 ∧ symbol.type ≠ STT_TLS ∧ startAddress ≤ pc ∧
            pc < endAddress then do
          let outcome ← readSymbolName file strtab symbol out
          pure (some outcome)
        else searchBuf strtab pc symbolOffset out rest

/-- `NUM_SYMBOLS`, which depends on whether `__WORDSIZE` is defined. -/
def maxSymbols (platform : Platform) (wordsizeDefined : Bool) : ℕ :=
  if wordsizeDefined = true ∧ platform.wordSize = .bits64 then 32 else 64

/-- The bytes of the batch at an index; `none` if they cannot be read or are no symbols. -/
def readSymbolBatch (wordsizeDefined : Bool) (symtabOffset numSymbols index : ℕ) :
    Option (List Byte) :=
  (checkedMultiply platform.sizeMax index platform.sizeofSym).bind fun symbolOffsetInFile =>
    (checkedAdd platform.sizeMax symtabOffset symbolOffsetInFile).bind fun offset =>
      (checkedMultiply platform.sizeMax platform.sizeofSym
          (min (maxSymbols platform wordsizeDefined) (numSymbols - index))).bind fun bytesToRead =>
        (readFromOffset file bytesToRead offset).bind fun buf =>
          if buf.length = 0 ∨ buf.length % platform.sizeofSym ≠ 0 then none else some buf

theorem readSymbolBatch_length {wordsizeDefined : Bool} {symtabOffset numSymbols index : ℕ}
    {buf : List Byte}
    (h : readSymbolBatch file wordsizeDefined symtabOffset numSymbols index = some buf) :
    0 < buf.length / platform.sizeofSym := by
  simp only [readSymbolBatch, Option.bind_eq_some_iff] at h
  obtain ⟨_, -, _, -, _, -, read, -, hread⟩ := h
  split at hread
  · cases hread
  · rename_i hlength
    obtain rfl := Option.some.inj hread
    obtain ⟨hne, hmod⟩ := not_or.mp hlength
    have hdvd := Nat.dvd_of_mod_eq_zero (not_not.mp hmod)
    exact Nat.div_pos (Nat.le_of_dvd (Nat.pos_of_ne_zero hne) hdvd) platform.sizeofSym_pos

/-- The loop of `FindSymbol` that reads batches, from an index on. -/
def searchSymbols (wordsizeDefined : Bool) (strtab : Shdr platform) (symtabOffset numSymbols : ℕ)
    (pc symbolOffset : ℕ) (out : List Byte) (index : ℕ) :
    Checked (SymbolLookupResult × List Byte) :=
  if index < numSymbols then
    match _hbatch : readSymbolBatch file wordsizeDefined symtabOffset numSymbols index with
    | none => .ok (.kMalformed, out)
    | some buf => do
      match ← searchBuf file strtab pc symbolOffset out (entriesOf (Sym.decode platform)
          platform.sizeofSym (buf.length / platform.sizeofSym) buf) with
      | some outcome => pure outcome
      | none =>
        searchSymbols wordsizeDefined strtab symtabOffset numSymbols pc symbolOffset out
          (index + buf.length / platform.sizeofSym)
  else .ok (.kNotFound, out)
  termination_by numSymbols - index
  decreasing_by
    have hpos := readSymbolBatch_length file _hbatch
    omega

/-- `FindSymbol`: its result, and the output after it. The tables are missing for null pointers. -/
def findSymbol (wordsizeDefined : Bool) (pc : ℕ) (out : List Byte) (symbolOffset : ℕ)
    (strtab symtab : Option (Shdr platform)) : Checked (SymbolLookupResult × List Byte) :=
  match strtab, symtab with
  | some strtab, some symtab =>
    if symtab.shEntsize.toNat ≠ platform.sizeofSym ∨
        symtab.shSize.toNat % symtab.shEntsize.toNat ≠ 0 then .ok (.kMalformed, out)
    else do
      if ← isFileRangeReadable file symtab.shOffset.toNat symtab.shSize.toNat then
        if ← isFileRangeReadable file strtab.shOffset.toNat strtab.shSize.toNat then
          searchSymbols file wordsizeDefined strtab symtab.shOffset.toNat
            (symtab.shSize.toNat / symtab.shEntsize.toNat) pc symbolOffset out 0
        else pure (.kMalformed, out)
      else pure (.kMalformed, out)
  | _, _ => .ok (.kMalformed, out)

/-! ### The scan -/

/-- What a lookup gives. -/
inductive Lookup
  | notFound
  | found (name : List Byte)
  | malformed

/-- The symbol contains the address, with an offset that is added to its own. -/
def Sym.Contains (symbol : Sym platform) (symbolOffset pc : ℕ) : Prop :=
  symbol.type ≠ STT_TLS ∧ symbol.stValue ≠ 0 ∧ symbol.stShndx ≠ 0 ∧
    symbol.stValue.toNat + symbolOffset + symbol.stSize.toNat ≤ uint64Max ∧
    symbol.stValue.toNat + symbolOffset ≤ pc ∧
    pc < symbol.stValue.toNat + symbolOffset + symbol.stSize.toNat

instance (symbol : Sym platform) (symbolOffset pc : ℕ) :
    Decidable (symbol.Contains symbolOffset pc) := by
  unfold Sym.Contains
  infer_instance

/-- The name of a symbol, which has to end within the string table and the size of the output. -/
def Sym.nameIn (symbol : Sym platform) (strings : List Byte) (outSize : ℕ) : Lookup :=
  let available := (strings.drop symbol.stName.toNat).take outSize
  if 0 ∈ available then .found (available.takeWhile (· ≠ 0)) else .malformed

/-- The name of the first symbol that contains the address. -/
def linearScan (strings : List Byte) (outSize pc symbolOffset : ℕ) :
    List (Sym platform) → Lookup
  | [] => .notFound
  | symbol :: rest =>
    if symbol.Contains symbolOffset pc then symbol.nameIn strings outSize
    else linearScan strings outSize pc symbolOffset rest

/-- The string in the output. -/
def cString (out : List Byte) : List Byte := out.takeWhile (· ≠ 0)

/-- What a lookup reports: the result, and the name in the output if it is found. -/
def report : SymbolLookupResult × List Byte → Lookup
  | (.kNotFound, _) => .notFound
  | (.kFound, out) => .found (cString out)
  | (.kMalformed, _) => .malformed

/-- An outcome reports a lookup, in an output of the size given. -/
structure Reports (outcome : SymbolLookupResult × List Byte) (lookup : Lookup) (outSize : ℕ) :
    Prop where
  reported : report outcome = lookup
  length : outcome.2.length = outSize
  terminated : outcome.1 = .kFound → 0 ∈ outcome.2

theorem reports_kMalformed {out : List Byte} {outSize : ℕ} (h : out.length = outSize) :
    Reports (.kMalformed, out) .malformed outSize where
  reported := rfl
  length := h
  terminated hfound := by cases hfound

theorem reports_kNotFound (out : List Byte) : Reports (.kNotFound, out) .notFound out.length where
  reported := rfl
  length := rfl
  terminated hfound := by cases hfound

/-! ### The batches -/

variable {file}

theorem Sym.contains_iff (symbol : Sym platform) (symbolOffset pc : ℕ)
    (htype : symbol.type ≠ STT_TLS) :
    symbol.Contains symbolOffset pc ↔
      ∃ startAddress endAddress,
        symbol.addresses symbolOffset = some (startAddress, endAddress) ∧
        symbol.stValue ≠ 0 ∧ symbol.stShndx ≠ 0 ∧ symbol.type ≠ STT_TLS ∧ startAddress ≤ pc ∧
        pc < endAddress := by
  have hvalue := Nat.le_trans (Platform.addr_le_sizeMax symbol.stValue) platform.sizeMax_le
  simp only [addresses, Option.bind_eq_some_iff, Option.map_eq_some_iff, Prod.mk.injEq]
  constructor
  · rintro ⟨-, hvalueNe, hshndx, hle, hbegin, hend⟩
    have hstart : symbol.stValue.toNat + symbolOffset ≤ uint64Max :=
      Nat.le_trans (Nat.le_add_right _ _) hle
    exact ⟨_, _, ⟨_, checkedAdd_of_le hstart, _, checkedAdd_of_le hle, rfl, rfl⟩, hvalueNe, hshndx,
      htype, hbegin, hend⟩
  · rintro ⟨_, _, ⟨start, hstart, endAddress, hend, rfl, rfl⟩, hvalueNe, hshndx, -, hbegin, hlt⟩
    obtain ⟨hstartLe, rfl⟩ := (checkedAdd_eq_some_iff hvalue).mp hstart
    obtain ⟨hle, rfl⟩ := (checkedAdd_eq_some_iff hstartLe).mp hend
    exact ⟨htype, hvalueNe, hshndx, hle, hbegin, hlt⟩

theorem takeWhile_append_of_mem {α : Type} {p : α → Bool} {l : List α} {a : α} (ha : a ∈ l)
    (hp : p a = false) (rest : List α) : (l ++ rest).takeWhile p = l.takeWhile p := by
  induction l with
  | nil => cases ha
  | cons b l ih =>
    rw [List.cons_append, List.takeWhile_cons, List.takeWhile_cons]
    cases hb : p b with
    | false => rfl
    | true =>
      have hmem : a ∈ l := by
        rcases List.mem_cons.mp ha with rfl | hmem
        · rw [hp] at hb
          cases hb
        · exact hmem
      rw [ih hmem]

/-- The name is read from the string table, into the output. -/
theorem readSymbolName_spec {strtab : Shdr platform}
    (hstrtab : strtab.shOffset.toNat + strtab.shSize.toNat ≤ file.contents.length)
    (symbol : Sym platform) (out : List Byte) :
    ∃ outcome, readSymbolName file strtab symbol out = .ok outcome ∧
      Reports outcome
        (symbol.nameIn (file.slice strtab.shOffset.toNat strtab.shSize.toNat) out.length)
        out.length := by
  have hzeros : (List.replicate out.length (0 : Byte)).length = out.length := List.length_replicate
  have hmax := length_le_sizeMax file
  rw [readSymbolName, Sym.nameIn]
  dsimp only
  have havailable : ((file.slice strtab.shOffset.toNat strtab.shSize.toNat).drop
      symbol.stName.toNat).take out.length =
      (file.contents.drop (strtab.shOffset.toNat + symbol.stName.toNat)).take
        (min out.length (strtab.shSize.toNat - symbol.stName.toNat)) := by
    rw [File.slice, List.drop_take, List.take_take, List.drop_drop]
  rw [havailable]
  by_cases hname : symbol.stName.toNat ≥ strtab.shSize.toNat
  · rw [if_pos hname, Nat.sub_eq_zero_of_le hname, Nat.min_zero, List.take_zero]
    exact ⟨_, rfl, reports_kMalformed rfl⟩
  have hlt := Nat.lt_of_not_le hname
  rw [if_neg hname, subtract_of_le (Nat.le_of_lt hlt), ok_bind, checkedAdd_of_le (by omega)]
  have hcount : (if strtab.shSize.toNat - symbol.stName.toNat > out.length then out.length
      else strtab.shSize.toNat - symbol.stName.toNat) =
      min out.length (strtab.shSize.toNat - symbol.stName.toNat) := by
    split <;> omega
  dsimp only
  rw [hcount]
  by_cases hempty : min out.length (strtab.shSize.toNat - symbol.stName.toNat) = 0
  · rw [if_pos hempty, hempty, List.take_zero]
    exact ⟨_, rfl, reports_kMalformed rfl⟩
  rw [if_neg hempty, readFromOffset_of_le file (by omega)]
  dsimp only
  generalize hbytes : (file.contents.drop (strtab.shOffset.toNat + symbol.stName.toNat)).take
    (min out.length (strtab.shSize.toNat - symbol.stName.toNat)) = name
  have hlength : name.length ≤ out.length := by
    rw [← hbytes, List.length_take]
    omega
  by_cases hterminated : 0 ∈ name
  · rw [if_pos hterminated, if_neg (by
      rintro (hzero | habsent)
      · rw [List.length_eq_zero_iff.mp hzero] at hterminated
        cases hterminated
      · exact habsent hterminated)]
    refine ⟨_, rfl, ?_, ?_, fun _ => List.mem_append_left _ hterminated⟩
    · rw [report, cString, takeWhile_append_of_mem hterminated (decide_eq_false (not_not.mpr rfl))]
    · rw [List.length_append, List.length_drop]
      omega
  · rw [if_neg hterminated, if_pos (Or.inr hterminated)]
    exact ⟨_, rfl, reports_kMalformed hzeros⟩

/-- The symbols in the buffer are scanned in order, by induction on them. -/
theorem searchBuf_spec {strtab : Shdr platform}
    (hstrtab : strtab.shOffset.toNat + strtab.shSize.toNat ≤ file.contents.length)
    (pc symbolOffset : ℕ) (out : List Byte) (symbols rest : List (Sym platform)) :
    (∃ outcome, searchBuf file strtab pc symbolOffset out symbols = .ok (some outcome) ∧
      Reports outcome (linearScan (file.slice strtab.shOffset.toNat strtab.shSize.toNat)
        out.length pc symbolOffset (symbols ++ rest)) out.length) ∨
    (searchBuf file strtab pc symbolOffset out symbols = .ok none ∧
      linearScan (file.slice strtab.shOffset.toNat strtab.shSize.toNat) out.length pc symbolOffset
          (symbols ++ rest) =
        linearScan (file.slice strtab.shOffset.toNat strtab.shSize.toNat) out.length pc
          symbolOffset rest) := by
  induction symbols with
  | nil => exact Or.inr ⟨rfl, rfl⟩
  | cons symbol symbols ih =>
    rw [List.cons_append, searchBuf, linearScan]
    by_cases htype : symbol.type = STT_TLS
    · rw [if_pos htype, if_neg fun hcontains => hcontains.1 htype]
      exact ih
    rw [if_neg htype]
    have hiff := symbol.contains_iff symbolOffset pc htype
    rcases haddresses : symbol.addresses symbolOffset with _ | ⟨startAddress, endAddress⟩
    · rw [if_neg fun hcontains => by
        obtain ⟨_, _, hsome, -⟩ := hiff.mp hcontains
        rw [haddresses] at hsome
        cases hsome]
      exact ih
    dsimp only
    by_cases hcontains : symbol.Contains symbolOffset pc
    · obtain ⟨_, _, hsome, hconditions⟩ := hiff.mp hcontains
      rw [haddresses] at hsome
      obtain ⟨rfl, rfl⟩ := Prod.mk.inj (Option.some.inj hsome)
      rw [if_pos hcontains, if_pos hconditions]
      obtain ⟨outcome, hread, hreports⟩ := readSymbolName_spec hstrtab symbol out
      rw [hread, ok_bind]
      exact Or.inl ⟨outcome, rfl, hreports⟩
    · rw [if_neg hcontains, if_neg fun hconditions =>
        hcontains (hiff.mpr ⟨_, _, haddresses, hconditions⟩)]
      exact ih

/-- The batch at an index has the next symbols of the table, as many as fit. -/
theorem readSymbolBatch_of_le {symtabOffset numSymbols : ℕ}
    (htable : symtabOffset + numSymbols * platform.sizeofSym ≤ file.contents.length)
    (wordsizeDefined : Bool) {index : ℕ} (hindex : index < numSymbols) :
    ∃ count, 0 < count ∧ index + count ≤ numSymbols ∧
      readSymbolBatch file wordsizeDefined symtabOffset numSymbols index =
        some (file.slice (symtabOffset + index * platform.sizeofSym)
          (count * platform.sizeofSym)) ∧
      (file.slice (symtabOffset + index * platform.sizeofSym)
        (count * platform.sizeofSym)).length = count * platform.sizeofSym := by
  have hmax := length_le_sizeMax file
  have hsize := platform.sizeofSym_pos
  have hbatch : 0 < maxSymbols platform wordsizeDefined := by
    rw [maxSymbols]
    split <;> decide
  generalize hcount : min (maxSymbols platform wordsizeDefined) (numSymbols - index) = count
  have hpos : 0 < count := by omega
  have hend : index + count ≤ numSymbols := by omega
  have hbytes : index * platform.sizeofSym + count * platform.sizeofSym ≤
      numSymbols * platform.sizeofSym := by
    rw [← Nat.add_mul]
    exact Nat.mul_le_mul_right _ hend
  have hlength : (file.slice (symtabOffset + index * platform.sizeofSym)
      (count * platform.sizeofSym)).length = count * platform.sizeofSym := by
    rw [File.slice, List.length_take, List.length_drop]
    omega
  refine ⟨count, hpos, hend, ?_, hlength⟩
  rw [readSymbolBatch, hcount, checkedMultiply_of_le (by omega), Option.bind_some,
    checkedAdd_of_le (by omega), Option.bind_some,
    checkedMultiply_of_le (by rw [Nat.mul_comm]; omega), Option.bind_some,
    Nat.mul_comm platform.sizeofSym count, readFromOffset_of_le file (by omega), Option.bind_some]
  refine if_neg ?_
  change ¬((file.slice _ _).length = 0 ∨ (file.slice _ _).length % _ ≠ 0)
  rw [hlength, Nat.mul_mod_left]
  have hne := Nat.mul_pos hpos hsize
  omega

/-- Batch by batch, by induction on the symbols that remain. -/
theorem searchSymbols_spec {strtab : Shdr platform} {symtabOffset numSymbols : ℕ}
    (hstrtab : strtab.shOffset.toNat + strtab.shSize.toNat ≤ file.contents.length)
    (htable : symtabOffset + numSymbols * platform.sizeofSym ≤ file.contents.length)
    (wordsizeDefined : Bool) (pc symbolOffset : ℕ) (out : List Byte) (index : ℕ) :
    ∃ outcome, searchSymbols file wordsizeDefined strtab symtabOffset numSymbols pc symbolOffset
        out index = .ok outcome ∧
      Reports outcome (linearScan (file.slice strtab.shOffset.toNat strtab.shSize.toNat)
        out.length pc symbolOffset (file.table (Sym.decode platform) symtabOffset
          platform.sizeofSym index (numSymbols - index))) out.length := by
  induction hmissing : numSymbols - index using Nat.strongRecOn generalizing index with
  | _ missing ih =>
    rw [searchSymbols, ← hmissing]
    by_cases hindex : index < numSymbols
    · obtain ⟨count, hpos, hend, hbatch, hlength⟩ :=
        readSymbolBatch_of_le htable wordsizeDefined hindex
      have hsplit : numSymbols - index = count + (numSymbols - (index + count)) := by omega
      rw [if_pos hindex, hsplit, ← File.table_append]
      split
      · rename_i hnone
        rw [hbatch] at hnone
        cases hnone
      rename_i buf hsome
      obtain rfl := Option.some.inj (hbatch.symm.trans hsome)
      rw [hlength, Nat.mul_div_cancel _ platform.sizeofSym_pos, entriesOf_slice]
      rcases searchBuf_spec hstrtab pc symbolOffset out
          (file.table (Sym.decode platform) symtabOffset platform.sizeofSym index count)
          (file.table (Sym.decode platform) symtabOffset platform.sizeofSym (index + count)
            (numSymbols - (index + count))) with ⟨outcome, hsearch, hreports⟩ | ⟨hsearch, hscan⟩
      · rw [hsearch, ok_bind]
        exact ⟨outcome, rfl, hreports⟩
      · rw [hsearch, ok_bind, hscan]
        exact ih _ (by omega) (index + count) rfl
    · rw [if_neg hindex, Nat.sub_eq_zero_of_le (Nat.le_of_not_lt hindex)]
      exact ⟨_, rfl, reports_kNotFound out⟩

/-- The tables of a lookup: the entries of the symbol table have the size of the structure, and both
tables lie inside of the file. -/
def TablesInside (file : File platform) (strtab symtab : Shdr platform) : Prop :=
  symtab.shEntsize.toNat = platform.sizeofSym ∧
    symtab.shSize.toNat % platform.sizeofSym = 0 ∧
    symtab.shOffset.toNat + symtab.shSize.toNat ≤ file.contents.length ∧
    strtab.shOffset.toNat + strtab.shSize.toNat ≤ file.contents.length

theorem findSymbol_spec {strtab symtab : Shdr platform} (h : TablesInside file strtab symtab)
    (wordsizeDefined : Bool) (pc symbolOffset : ℕ) (out : List Byte) :
    ∃ outcome, findSymbol file wordsizeDefined pc out symbolOffset (some strtab) (some symtab) =
        .ok outcome ∧
      Reports outcome (linearScan (file.slice strtab.shOffset.toNat strtab.shSize.toNat)
        out.length pc symbolOffset (file.table (Sym.decode platform) symtab.shOffset.toNat
          platform.sizeofSym 0 (symtab.shSize.toNat / platform.sizeofSym))) out.length := by
  obtain ⟨hentsize, hmod, hsymtab, hstrtab⟩ := h
  have htable : symtab.shOffset.toNat +
      symtab.shSize.toNat / platform.sizeofSym * platform.sizeofSym ≤ file.contents.length := by
    rw [Nat.div_mul_cancel (Nat.dvd_of_mod_eq_zero hmod)]
    exact hsymtab
  rw [findSymbol, hentsize, if_neg (by simp [hmod]), isFileRangeReadable_eq, ok_bind,
    if_pos (decide_eq_true hsymtab), isFileRangeReadable_eq, ok_bind,
    if_pos (decide_eq_true hstrtab)]
  exact searchSymbols_spec hstrtab htable wordsizeDefined pc symbolOffset out 0

theorem findSymbol_of_not_inside {strtab symtab : Shdr platform}
    (h : ¬TablesInside file strtab symtab) (wordsizeDefined : Bool) (pc symbolOffset : ℕ)
    (out : List Byte) :
    findSymbol file wordsizeDefined pc out symbolOffset (some strtab) (some symtab) =
      .ok (.kMalformed, out) := by
  rw [findSymbol]
  by_cases hentsize : symtab.shEntsize.toNat = platform.sizeofSym
  · rw [hentsize]
    by_cases hmod : symtab.shSize.toNat % platform.sizeofSym = 0
    · rw [if_neg (by simp [hmod]), isFileRangeReadable_eq, ok_bind]
      split
      · rename_i hsymtab
        rw [isFileRangeReadable_eq, ok_bind, if_neg]
        · rfl
        · intro hstrtab
          exact h ⟨hentsize, hmod, of_decide_eq_true hsymtab, of_decide_eq_true hstrtab⟩
      · rfl
    · rw [if_pos (Or.inr hmod)]
  · rw [if_pos (Or.inl hentsize)]

/-- The lookups that read batches give what a scan gives that goes entry by entry. A symbol is
looked up in every file, and if the tables do not lie inside of it they are reported as
malformed. -/
theorem lookups_refine_scans (file : File platform) :
    (∀ (wordsizeDefined : Bool) (strtab symtab : Shdr platform) (pc symbolOffset : ℕ)
      (out : List Byte),
      ∃ outcome, findSymbol file wordsizeDefined pc out symbolOffset (some strtab) (some symtab) =
          .ok outcome ∧
        (TablesInside file strtab symtab →
          Reports outcome (linearScan (file.slice strtab.shOffset.toNat strtab.shSize.toNat)
            out.length pc symbolOffset (file.table (Sym.decode platform) symtab.shOffset.toNat
              platform.sizeofSym 0 (symtab.shSize.toNat / platform.sizeofSym))) out.length) ∧
        (¬TablesInside file strtab symtab → outcome = (.kMalformed, out))) ∧
    (∀ (shNum shOffset shEntrySize : ℕ) (type : BitVec 32),
      getSectionHeaderByType file shNum shOffset shEntrySize type =
        .ok (if platform.sizeofShdr ≤ shEntrySize ∧
            shOffset + shNum * shEntrySize ≤ file.contents.length then
          searchOneByOne file shNum shOffset shEntrySize type 0 shNum else .kMalformed)) ∧
    (∀ (shNum shOffset : ℕ) (type : BitVec 32),
      shOffset + shNum * platform.sizeofShdr ≤ file.contents.length →
        searchBatches file shNum shOffset type 0 =
          searchOneByOne file shNum shOffset platform.sizeofShdr type 0 shNum) := by
  have hpaths : ∀ (shNum shOffset : ℕ) (type : BitVec 32),
      shOffset + shNum * platform.sizeofShdr ≤ file.contents.length →
        searchBatches file shNum shOffset type 0 =
          searchOneByOne file shNum shOffset platform.sizeofShdr type 0 shNum := by
    intro shNum shOffset type htable
    rw [searchBatches_eq htable, searchOneByOne_eq (Nat.le_refl _) htable type shNum
      (Nat.zero_add _)]
    rfl
  refine ⟨fun wordsizeDefined strtab symtab pc symbolOffset out => ?_,
    fun shNum shOffset shEntrySize type => ?_, hpaths⟩
  · by_cases hinside : TablesInside file strtab symtab
    · obtain ⟨outcome, hfind, hreports⟩ :=
        findSymbol_spec hinside wordsizeDefined pc symbolOffset out
      exact ⟨outcome, hfind, fun _ => hreports, fun hnot => absurd hinside hnot⟩
    · exact ⟨_, findSymbol_of_not_inside hinside wordsizeDefined pc symbolOffset out,
        fun hin => absurd hin hinside, fun _ => rfl⟩
  · rw [getSectionHeaderByType]
    have hmax := length_le_sizeMax file
    rcases hmultiply : checkedMultiply platform.sizeMax shNum shEntrySize with _ | size
    · dsimp only
      rw [if_neg]
      rintro ⟨-, htable⟩
      rw [checkedMultiply_of_le (by omega)] at hmultiply
      cases hmultiply
    obtain ⟨-, rfl⟩ := checkedMultiply_eq_some_iff.mp hmultiply
    dsimp only
    by_cases hsize : shEntrySize < platform.sizeofShdr
    · rw [if_pos hsize, if_neg fun h => absurd h.1 (Nat.not_le.mpr hsize)]
    rw [if_neg hsize, isFileRangeReadable_eq, ok_bind]
    by_cases htable : shOffset + shNum * shEntrySize ≤ file.contents.length
    · have haccepted : platform.sizeofShdr ≤ shEntrySize ∧
          shOffset + shNum * shEntrySize ≤ file.contents.length :=
        ⟨Nat.le_of_not_lt hsize, htable⟩
      rw [if_pos (decide_eq_true htable), if_pos haccepted]
      by_cases hentry : shEntrySize = platform.sizeofShdr
      · obtain rfl := hentry
        rw [if_neg (not_not.mpr rfl), hpaths shNum shOffset type htable]
        rfl
      · rw [if_pos hentry]
        rfl
    · rw [if_neg fun h => htable (of_decide_eq_true h), if_neg fun h => htable h.2]
      rfl

end Symbolize

end NgLog
