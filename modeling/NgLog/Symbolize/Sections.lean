import NgLog.Symbolize.Elf

/-!
# The section headers of an object file

The number of sections, the size of their headers and the index of the string table come from the
ELF header, with escape values for which they are in the first section header. The table is accepted
only if it lies inside of the file. It is searched by name, or by type: header by header if the
headers are larger than the structure, and else in batches of 16.

## Main definitions

* `getSectionTableInfo`, `getSectionHeaderByName` — the table, and the search by name
* `getSectionHeaderByType` — the search by type

## Main results

* `readSectionHeader_eq_some` — a header that is read lies inside of the table and of the file
* `getSectionTableInfo_spec`, `getSectionHeaderByName_spec` — no arithmetic wraps around, and what
  is accepted lies inside of the file
* `searchBatches_eq`, `searchOneByOne_eq` — both searches by type give the first header of the type
-/

namespace NgLog

namespace Symbolize

variable {platform : Platform} (file : File platform)

/-- `SHN_XINDEX`. -/
def SHN_XINDEX : BitVec 16 := 0xffff

/-- `SHT_STRTAB`. -/
def SHT_STRTAB : BitVec 32 := 3

/-- `ReadSectionHeader`. -/
def readSectionHeader (sectionIndex sectionCount sectionOffset sectionEntrySize : ℕ) :
    Option (Shdr platform) :=
  if sectionIndex ≥ sectionCount ∨ sectionEntrySize < platform.sizeofShdr then none
  else
    (checkedMultiply platform.sizeMax sectionIndex sectionEntrySize).bind fun sectionTableOffset =>
      (checkedAdd platform.sizeMax sectionOffset sectionTableOffset).bind (readShdr file)

/-- The results of `GetSectionTableInfo`. -/
structure SectionTableInfo where
  sectionCount : ℕ
  stringTableIndex : ℕ
  sectionEntrySize : ℕ

/-- The number of sections and the index of the string table in `GetSectionTableInfo`; `none` if the
first section header cannot be read where it is needed. -/
def sectionCountAndStringIndex (elfHeader : Ehdr platform) : Option (ℕ × ℕ) :=
  if elfHeader.eShnum = 0 ∨ elfHeader.eShstrndx = SHN_XINDEX then
    if elfHeader.eShoff = 0 then none
    else
      (readShdr file elfHeader.eShoff.toNat).map fun firstSection =>
        (if elfHeader.eShnum = 0 then firstSection.shSize.toNat else elfHeader.eShnum.toNat,
          if elfHeader.eShstrndx = SHN_XINDEX then firstSection.shLink.toNat
          else elfHeader.eShstrndx.toNat)
  else some (elfHeader.eShnum.toNat, elfHeader.eShstrndx.toNat)

/-- `GetSectionTableInfo`. The index of the string table is checked only if it is asked for. -/
def getSectionTableInfo (elfHeader : Ehdr platform) (wantsStringTable : Bool) :
    Checked (Option SectionTableInfo) :=
  if elfHeader.eShoff = 0 ∧ elfHeader.eShnum = 0 then .ok (some ⟨0, 0, 0⟩)
  else if elfHeader.eShentsize.toNat < platform.sizeofShdr then .ok none
  else
    let entrySize := elfHeader.eShentsize.toNat
    match sectionCountAndStringIndex file elfHeader with
    | none => .ok none
    | some (count, stringIndex) =>
      if count = 0 then .ok none
      else
        match checkedMultiply platform.sizeMax count entrySize with
        | none => .ok none
        | some sectionTableSize => do
          if ← isFileRangeReadable file elfHeader.eShoff.toNat sectionTableSize then
            if wantsStringTable = true ∧ stringIndex ≥ count then pure none
            else pure (some ⟨count, stringIndex, entrySize⟩)
          else pure none

/-! ### The search by name -/

/-- `kMaxSectionNameLen`. -/
def kMaxSectionNameLen : ℕ := 64

/-- The loop of `GetSectionHeaderByName`, from an index on. -/
def searchByName (name : List Byte) (info : SectionTableInfo) (sectionOffset : ℕ)
    (shstrtab : Shdr platform) (index : ℕ) : ℕ → Checked (Option (Shdr platform))
  | 0 => .ok none
  | remaining + 1 =>
    match readSectionHeader file index info.sectionCount sectionOffset info.sectionEntrySize with
    | none => .ok none
    | some out =>
      if out.shName.toNat > shstrtab.shSize.toNat then
        searchByName name info sectionOffset shstrtab (index + 1) remaining
      else do
        let available ← subtract shstrtab.shSize.toNat out.shName.toNat
        if name.length > available then
          searchByName name info sectionOffset shstrtab (index + 1) remaining
        else
          match (checkedAdd platform.sizeMax shstrtab.shOffset.toNat out.shName.toNat).bind
              (readFromOffsetExact file name.length) with
          | none => pure none
          | some headerName =>
            if headerName = name then pure (some out)
            else searchByName name info sectionOffset shstrtab (index + 1) remaining

/-- `GetSectionHeaderByName`, with a name that includes its terminator. -/
def getSectionHeaderByName (name : List Byte) : Checked (Option (Shdr platform)) :=
  if name.length = 0 then .ok none
  else
    match readEhdr file with
    | none => .ok none
    | some elfHeader =>
      if isSupportedElfHeader elfHeader = false ∨ name.length > kMaxSectionNameLen then .ok none
      else do
        match ← getSectionTableInfo file elfHeader true with
        | none => pure none
        | some info =>
          if info.sectionCount = 0 then pure none
          else
            let sectionOffset := elfHeader.eShoff.toNat
            match readSectionHeader file info.stringTableIndex info.sectionCount sectionOffset
                info.sectionEntrySize with
            | none => pure none
            | some shstrtab =>
              if shstrtab.shType ≠ SHT_STRTAB then pure none
              else if ← isFileRangeReadable file shstrtab.shOffset.toNat shstrtab.shSize.toNat then
                searchByName file name info sectionOffset shstrtab 0 info.sectionCount
              else pure none

/-! ### The search by type -/

/-- `SectionLookupResult`, with the header that is found. -/
inductive SectionLookupResult (platform : Platform)
  | kNotFound
  | kFound (out : Shdr platform)
  | kMalformed

/-- The loop of `GetSectionHeaderByType` over headers that are larger than the structure. -/
def searchOneByOne (shNum shOffset shEntrySize : ℕ) (type : BitVec 32) (index : ℕ) :
    ℕ → SectionLookupResult platform
  | 0 => .kNotFound
  | remaining + 1 =>
    match readSectionHeader file index shNum shOffset shEntrySize with
    | none => .kMalformed
    | some header =>
      if header.shType = type then .kFound header
      else searchOneByOne shNum shOffset shEntrySize type (index + 1) remaining

/-- The number of headers in the buffer. -/
def kSectionBatch : ℕ := 16

/-- The number of bytes that the next batch reads, of those that are left. -/
def sectionBytesToRead (platform : Platform) (numBytesLeft : ℕ) : ℕ :=
  if kSectionBatch * platform.sizeofShdr > numBytesLeft then numBytesLeft
  else kSectionBatch * platform.sizeofShdr

/-- The bytes of the batch at an index; `none` if they cannot be read. -/
def readSectionBatch (shNum shOffset index : ℕ) : Option (List Byte) :=
  (checkedMultiply platform.sizeMax (shNum - index) platform.sizeofShdr).bind fun numBytesLeft =>
    (checkedMultiply platform.sizeMax index platform.sizeofShdr).bind fun readOffset =>
      (checkedAdd platform.sizeMax shOffset readOffset).bind
        (readFromOffsetExact file (sectionBytesToRead platform numBytesLeft))

/-- `num_headers_in_buf`. -/
def numHeadersInBuf (platform : Platform) (shNum index : ℕ) : ℕ :=
  sectionBytesToRead platform ((shNum - index) * platform.sizeofShdr) / platform.sizeofShdr

theorem numHeadersInBuf_eq (platform : Platform) (shNum index : ℕ) :
    numHeadersInBuf platform shNum index = min kSectionBatch (shNum - index) := by
  have hpos := platform.sizeofShdr_pos
  rw [numHeadersInBuf, sectionBytesToRead]
  split
  · rename_i hlt
    rw [Nat.mul_div_cancel _ hpos, Nat.min_eq_right]
    exact Nat.le_of_lt (Nat.lt_of_mul_lt_mul_right hlt)
  · rename_i hle
    rw [Nat.mul_div_cancel _ hpos, Nat.min_eq_left]
    exact Nat.le_of_mul_le_mul_right (Nat.le_of_not_lt hle) hpos

/-- The loop of `GetSectionHeaderByType` that reads batches, from an index on. -/
def searchBatches (shNum shOffset : ℕ) (type : BitVec 32) (index : ℕ) :
    SectionLookupResult platform :=
  if index < shNum then
    match readSectionBatch file shNum shOffset index with
    | none => .kMalformed
    | some buf =>
      match (entriesOf (Shdr.decode platform) platform.sizeofShdr
          (numHeadersInBuf platform shNum index) buf).find? (·.shType = type) with
      | some header => .kFound header
      | none => searchBatches shNum shOffset type (index + numHeadersInBuf platform shNum index)
  else .kNotFound
  termination_by shNum - index
  decreasing_by
    rw [numHeadersInBuf_eq, kSectionBatch]
    omega

/-- `GetSectionHeaderByType`. -/
def getSectionHeaderByType (shNum shOffset shEntrySize : ℕ) (type : BitVec 32) :
    Checked (SectionLookupResult platform) :=
  match checkedMultiply platform.sizeMax shNum shEntrySize with
  | none => .ok .kMalformed
  | some sectionTableSize =>
    if shEntrySize < platform.sizeofShdr then .ok .kMalformed
    else do
      if ← isFileRangeReadable file shOffset sectionTableSize then
        if shEntrySize ≠ platform.sizeofShdr then
          pure (searchOneByOne file shNum shOffset shEntrySize type 0 shNum)
        else pure (searchBatches file shNum shOffset type 0)
      else pure .kMalformed

/-! ### What the table accepts -/

section Specs

variable {file}

theorem length_le_sizeMax (file : File platform) : file.contents.length ≤ platform.sizeMax :=
  Nat.le_trans file.length_le (Nat.le_of_lt platform.kMaxFileOffset_lt_sizeMax)

/-- An entry lies inside of its table. -/
theorem entry_le {index count : ℕ} (h : index < count) (size : ℕ) :
    index * size + size ≤ count * size := by
  rw [← Nat.succ_mul]
  exact Nat.mul_le_mul_right size h

/-- A header that is read has an index of the table and lies inside of the file. -/
theorem readSectionHeader_eq_some {sectionIndex sectionCount sectionOffset sectionEntrySize : ℕ}
    {header : Shdr platform} (hoffset : sectionOffset ≤ platform.sizeMax)
    (h : readSectionHeader file sectionIndex sectionCount sectionOffset sectionEntrySize =
      some header) :
    sectionIndex < sectionCount ∧ platform.sizeofShdr ≤ sectionEntrySize ∧
      sectionOffset + sectionIndex * sectionEntrySize + platform.sizeofShdr ≤
        file.contents.length ∧
      header = file.shdrAt (sectionOffset + sectionIndex * sectionEntrySize) := by
  rw [readSectionHeader] at h
  split at h
  · cases h
  · rename_i hchecked
    obtain ⟨hindex, hsize⟩ := not_or.mp hchecked
    obtain ⟨tableOffset, htable, h⟩ := Option.bind_eq_some_iff.mp h
    obtain ⟨headerOffset, hheader, hread⟩ := Option.bind_eq_some_iff.mp h
    obtain ⟨-, rfl⟩ := checkedMultiply_eq_some_iff.mp htable
    obtain ⟨-, rfl⟩ := (checkedAdd_eq_some_iff hoffset).mp hheader
    obtain ⟨hle, heq⟩ := readShdr_eq_some_iff.mp hread
    exact ⟨Nat.lt_of_not_le hindex, Nat.le_of_not_lt hsize, hle, heq⟩

/-- Every header of a table inside of the file is read. -/
theorem readSectionHeader_of_le {sectionIndex sectionCount sectionOffset sectionEntrySize : ℕ}
    (hindex : sectionIndex < sectionCount) (hsize : platform.sizeofShdr ≤ sectionEntrySize)
    (htable : sectionOffset + sectionCount * sectionEntrySize ≤ file.contents.length) :
    readSectionHeader file sectionIndex sectionCount sectionOffset sectionEntrySize =
      some (file.shdrAt (sectionOffset + sectionIndex * sectionEntrySize)) := by
  have hmax := length_le_sizeMax file
  have hentry := entry_le hindex sectionEntrySize
  rw [readSectionHeader, if_neg (by omega), checkedMultiply_of_le (by omega), Option.bind_some,
    checkedAdd_of_le (by omega), Option.bind_some]
  exact readShdr_eq_some_iff.mpr ⟨by omega, rfl⟩

/-- The table that is accepted is empty or lies inside of the file. -/
theorem getSectionTableInfo_spec (file : File platform) (elfHeader : Ehdr platform)
    (wantsStringTable : Bool) :
    ∃ result, getSectionTableInfo file elfHeader wantsStringTable = .ok result ∧
      ∀ info, result = some info → info.sectionCount ≠ 0 →
        info.sectionEntrySize = elfHeader.eShentsize.toNat ∧
        platform.sizeofShdr ≤ info.sectionEntrySize ∧
        elfHeader.eShoff.toNat + info.sectionCount * info.sectionEntrySize ≤
          file.contents.length ∧
        (wantsStringTable = true → info.stringTableIndex < info.sectionCount) := by
  rw [getSectionTableInfo]
  split
  · exact ⟨_, rfl, fun info hinfo hcount => absurd (by rw [← Option.some.inj hinfo]) hcount⟩
  split
  · exact ⟨_, rfl, nofun⟩
  · rename_i hsize
    rcases sectionCountAndStringIndex file elfHeader with _ | ⟨count, stringIndex⟩
    · exact ⟨_, rfl, nofun⟩
    dsimp only
    split
    · exact ⟨_, rfl, nofun⟩
    rcases hmultiply : checkedMultiply platform.sizeMax count elfHeader.eShentsize.toNat
      with _ | size
    · exact ⟨_, rfl, nofun⟩
    obtain ⟨-, rfl⟩ := checkedMultiply_eq_some_iff.mp hmultiply
    simp only [isFileRangeReadable_eq]
    by_cases hreadable : elfHeader.eShoff.toNat + count * elfHeader.eShentsize.toNat ≤
      file.contents.length
    · rw [decide_eq_true hreadable]
      by_cases hstring : wantsStringTable = true ∧ stringIndex ≥ count
      · exact ⟨none, if_pos hstring, nofun⟩
      · refine ⟨some ⟨count, stringIndex, elfHeader.eShentsize.toNat⟩, if_neg hstring, ?_⟩
        rintro info hinfo -
        obtain rfl := Option.some.inj hinfo
        exact ⟨rfl, Nat.le_of_not_lt hsize, hreadable,
          fun hwants => Nat.lt_of_not_le fun hle => hstring ⟨hwants, hle⟩⟩
    · rw [decide_eq_false hreadable]
      exact ⟨none, rfl, nofun⟩

/-- The loop over the names, for a string table inside of the file. -/
theorem searchByName_spec {name : List Byte} (hname : 0 < name.length) {info : SectionTableInfo}
    {sectionOffset : ℕ} (hoffset : sectionOffset ≤ platform.sizeMax) (shstrtab : Shdr platform)
    (remaining index : ℕ) :
    ∃ result, searchByName file name info sectionOffset shstrtab index remaining = .ok result ∧
      ∀ out, result = some out →
        (∃ i, i < info.sectionCount ∧
          sectionOffset + i * info.sectionEntrySize + platform.sizeofShdr ≤ file.contents.length ∧
          out = file.shdrAt (sectionOffset + i * info.sectionEntrySize)) ∧
        out.shName.toNat + name.length ≤ shstrtab.shSize.toNat ∧
        shstrtab.shOffset.toNat + out.shName.toNat + name.length ≤ file.contents.length ∧
        file.slice (shstrtab.shOffset.toNat + out.shName.toNat) name.length = name := by
  induction remaining generalizing index with
  | zero => exact ⟨none, rfl, nofun⟩
  | succ remaining ih =>
    rw [searchByName]
    rcases hread : readSectionHeader file index info.sectionCount sectionOffset
      info.sectionEntrySize with _ | out
    · exact ⟨none, rfl, nofun⟩
    obtain ⟨hindex, -, hheader, hout⟩ := readSectionHeader_eq_some hoffset hread
    dsimp only
    by_cases hshort : out.shName.toNat > shstrtab.shSize.toNat
    · rw [if_pos hshort]
      exact ih (index + 1)
    have hle := Nat.le_of_not_lt hshort
    rw [if_neg hshort, subtract_of_le hle, ok_bind]
    split
    · exact ih (index + 1)
    · rename_i hlength
      rcases hname' : (checkedAdd platform.sizeMax shstrtab.shOffset.toNat out.shName.toNat).bind
        (readFromOffsetExact file name.length) with _ | headerName
      · exact ⟨none, rfl, nofun⟩
      obtain ⟨nameOffset, hadd, hbytes⟩ := Option.bind_eq_some_iff.mp hname'
      obtain ⟨-, rfl⟩ := (checkedAdd_eq_some_iff (Platform.addr_le_sizeMax _)).mp hadd
      obtain ⟨hinside, heq⟩ := (readFromOffsetExact_eq_some_iff file hname).mp hbytes
      dsimp only
      split
      · rename_i hsame
        refine ⟨some out, rfl, fun out' hout' => ?_⟩
        obtain rfl := Option.some.inj hout'
        exact ⟨⟨index, hindex, hheader, hout⟩, by omega, hinside, heq.symm.trans hsame⟩
      · exact ih (index + 1)

/-- The section that is found has its header in the section table, and its name in a string table,
both of which lie inside of the file. -/
theorem getSectionHeaderByName_spec (file : File platform) (name : List Byte) :
    ∃ result, getSectionHeaderByName file name = .ok result ∧
      ∀ out, result = some out → ∃ elfHeader info shstrtab,
        readEhdr file = some elfHeader ∧
        getSectionTableInfo file elfHeader true = .ok (some info) ∧
        elfHeader.eShoff.toNat + info.sectionCount * info.sectionEntrySize ≤
          file.contents.length ∧
        (∃ i, i < info.sectionCount ∧
          out = file.shdrAt (elfHeader.eShoff.toNat + i * info.sectionEntrySize)) ∧
        shstrtab = file.shdrAt
          (elfHeader.eShoff.toNat + info.stringTableIndex * info.sectionEntrySize) ∧
        shstrtab.shOffset.toNat + shstrtab.shSize.toNat ≤ file.contents.length ∧
        out.shName.toNat + name.length ≤ shstrtab.shSize.toNat ∧
        file.slice (shstrtab.shOffset.toNat + out.shName.toNat) name.length = name := by
  rw [getSectionHeaderByName]
  split
  · exact ⟨none, rfl, nofun⟩
  rename_i hname
  rcases hread : readEhdr file with _ | elfHeader
  · exact ⟨none, rfl, nofun⟩
  dsimp only
  split
  · exact ⟨none, rfl, nofun⟩
  obtain ⟨result, hinfo, htable⟩ := getSectionTableInfo_spec file elfHeader true
  rw [hinfo, ok_bind]
  rcases result with _ | info
  · exact ⟨none, rfl, nofun⟩
  dsimp only
  split
  · exact ⟨none, rfl, nofun⟩
  rename_i hcount
  obtain ⟨-, -, hinside, -⟩ := htable info rfl hcount
  have hoffset := Platform.addr_le_sizeMax elfHeader.eShoff
  rcases hstring : readSectionHeader file info.stringTableIndex info.sectionCount
    elfHeader.eShoff.toNat info.sectionEntrySize with _ | shstrtab
  · exact ⟨none, rfl, nofun⟩
  obtain ⟨-, -, -, hshstrtab⟩ := readSectionHeader_eq_some hoffset hstring
  dsimp only
  split
  · exact ⟨none, rfl, nofun⟩
  rw [isFileRangeReadable_eq, ok_bind]
  split
  · rename_i hreadable
    obtain ⟨found, hsearch, hfound⟩ := searchByName_spec (Nat.pos_of_ne_zero hname) hoffset shstrtab
      info.sectionCount 0
    refine ⟨found, hsearch, fun out hout => ?_⟩
    obtain ⟨⟨i, hi, -, heq⟩, hlength, -, hslice⟩ := hfound out hout
    exact ⟨elfHeader, info, shstrtab, rfl, hinfo, hinside, ⟨i, hi, heq⟩, hshstrtab,
      of_decide_eq_true hreadable, hlength, hslice⟩
  · exact ⟨none, rfl, nofun⟩

end Specs

/-! ### Both searches by type -/

/-- The first header of the type. -/
def firstOfType (type : BitVec 32) (headers : List (Shdr platform)) :
    SectionLookupResult platform :=
  match headers.find? (·.shType = type) with
  | some header => .kFound header
  | none => .kNotFound

theorem firstOfType_append_of_none {type : BitVec 32} {headers : List (Shdr platform)}
    (h : headers.find? (·.shType = type) = none) (rest : List (Shdr platform)) :
    firstOfType type (headers ++ rest) = firstOfType type rest := by
  rw [firstOfType, List.find?_append, h, Option.none_or, firstOfType]

theorem firstOfType_append_of_some {type : BitVec 32} {headers : List (Shdr platform)}
    {header : Shdr platform} (h : headers.find? (·.shType = type) = some header)
    (rest : List (Shdr platform)) :
    firstOfType type (headers ++ rest) = .kFound header := by
  rw [firstOfType, List.find?_append, h, Option.some_or]

variable {file} {shNum shOffset : ℕ}

/-- Header by header, by induction on those that remain. -/
theorem searchOneByOne_eq {shEntrySize : ℕ} (hsize : platform.sizeofShdr ≤ shEntrySize)
    (htable : shOffset + shNum * shEntrySize ≤ file.contents.length) (type : BitVec 32)
    (remaining : ℕ) {index : ℕ} (hindex : index + remaining = shNum) :
    searchOneByOne file shNum shOffset shEntrySize type index remaining =
      firstOfType type ((List.range' index remaining).map fun i =>
        file.shdrAt (shOffset + i * shEntrySize)) := by
  induction remaining generalizing index with
  | zero => rfl
  | succ remaining ih =>
    rw [searchOneByOne, readSectionHeader_of_le (by omega) hsize htable, ih (by omega),
      List.range'_succ, List.map_cons, firstOfType, firstOfType, List.find?_cons]
    dsimp only
    by_cases htype : (file.shdrAt (shOffset + index * shEntrySize)).shType = type
    · rw [if_pos htype, decide_eq_true htype]
    · rw [if_neg htype, decide_eq_false htype]

/-- The batch at an index has the next headers of the table. -/
theorem readSectionBatch_of_le
    (htable : shOffset + shNum * platform.sizeofShdr ≤ file.contents.length) {index : ℕ}
    (hindex : index < shNum) :
    readSectionBatch file shNum shOffset index =
      some (file.slice (shOffset + index * platform.sizeofShdr)
        (numHeadersInBuf platform shNum index * platform.sizeofShdr)) := by
  have hmax := length_le_sizeMax file
  have hpos := platform.sizeofShdr_pos
  have hsplit : shNum * platform.sizeofShdr =
      index * platform.sizeofShdr + (shNum - index) * platform.sizeofShdr := by
    rw [← Nat.add_mul, Nat.add_sub_cancel' (Nat.le_of_lt hindex)]
  have hbytes : sectionBytesToRead platform ((shNum - index) * platform.sizeofShdr) =
      numHeadersInBuf platform shNum index * platform.sizeofShdr := by
    rw [numHeadersInBuf_eq, sectionBytesToRead, ← Nat.mul_min_mul_right]
    split <;> omega
  have hle : sectionBytesToRead platform ((shNum - index) * platform.sizeofShdr) ≤
      (shNum - index) * platform.sizeofShdr := by
    rw [sectionBytesToRead]
    split <;> omega
  have hbytesPos : 0 < sectionBytesToRead platform ((shNum - index) * platform.sizeofShdr) := by
    rw [hbytes, numHeadersInBuf_eq, kSectionBatch]
    exact Nat.mul_pos (by omega) hpos
  rw [readSectionBatch, checkedMultiply_of_le (by omega), Option.bind_some,
    checkedMultiply_of_le (by omega), Option.bind_some, checkedAdd_of_le (by omega),
    Option.bind_some]
  refine (readFromOffsetExact_eq_some_iff file hbytesPos).mpr ⟨by omega, ?_⟩
  rw [hbytes]
  rfl

/-- Batch by batch, by induction on the headers that remain. -/
theorem searchBatches_eq
    (htable : shOffset + shNum * platform.sizeofShdr ≤ file.contents.length) (type : BitVec 32)
    (index : ℕ) :
    searchBatches file shNum shOffset type index =
      firstOfType type (file.table (Shdr.decode platform) shOffset platform.sizeofShdr index
        (shNum - index)) := by
  induction hmissing : shNum - index using Nat.strongRecOn generalizing index with
  | _ missing ih =>
    rw [searchBatches]
    split
    · rename_i hindex
      have hbatch := numHeadersInBuf_eq platform shNum index
      rw [kSectionBatch] at hbatch
      rw [readSectionBatch_of_le htable hindex, ← hmissing]
      dsimp only
      rw [entriesOf_slice]
      have hsplit : shNum - index = numHeadersInBuf platform shNum index +
          (shNum - (index + numHeadersInBuf platform shNum index)) := by omega
      rw [hsplit, ← File.table_append]
      rcases hfind : (file.table (Shdr.decode platform) shOffset platform.sizeofShdr index
        (numHeadersInBuf platform shNum index)).find? (·.shType = type) with _ | header
      · rw [hfind, firstOfType_append_of_none hfind]
        exact ih _ (by omega) (index + numHeadersInBuf platform shNum index) rfl
      · rw [hfind, firstOfType_append_of_some hfind]
    · rename_i hindex
      rw [← hmissing, Nat.sub_eq_zero_of_le (Nat.le_of_not_lt hindex)]
      rfl

end Symbolize

end NgLog
