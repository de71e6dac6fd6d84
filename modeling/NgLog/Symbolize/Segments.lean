import NgLog.Symbolize.Sections

/-!
# The segments of an object file

The dynamic entries of an object file hold addresses. `ConvertDynamicAddressToFileOffset` looks for
the segment that maps an address range from the file, and gives the offset of the bytes there. The
number of program headers comes from the ELF header, or from the first section header.

## Main definitions

* `getProgramHeaderTableInfo`, `readProgramHeader` — the program headers
* `convertDynamicAddressToFileOffset` — the offset of an address range
* `readSysVHashSymbolCount` — the number of symbols of a hash table
* `Phdr.mapped` — the byte that a segment maps at an address

## Main results

* `getProgramHeaderTableInfo_spec`, `readProgramHeader_eq_some`, `readSysVHashSymbolCount_spec` —
  what is accepted lies inside of the file
* `convertDynamicAddressToFileOffset_spec` — the bytes at the offset are those that a segment maps
* `object_file_ranges` — all of them, for every file
-/

namespace NgLog

namespace Symbolize

variable {platform : Platform} (file : File platform)

/-- `PN_XNUM`. -/
def PN_XNUM : BitVec 16 := 0xffff

/-- `PT_LOAD`. -/
def PT_LOAD : BitVec 32 := 1

/-- The number of program headers in `GetProgramHeaderTableInfo`; `none` if the first section header
cannot be read where it is needed. -/
def programHeaderCount (elfHeader : Ehdr platform) : Option ℕ :=
  if elfHeader.ePhnum = PN_XNUM then
    if elfHeader.eShoff = 0 ∨ elfHeader.eShentsize.toNat < platform.sizeofShdr then none
    else (readShdr file elfHeader.eShoff.toNat).map fun firstSection => firstSection.shInfo.toNat
  else some elfHeader.ePhnum.toNat

/-- `GetProgramHeaderTableInfo`. -/
def getProgramHeaderTableInfo (elfHeader : Ehdr platform) : Checked (Option ℕ) :=
  if elfHeader.ePhnum = 0 then .ok (some 0)
  else
    match programHeaderCount file elfHeader with
    | none => .ok none
    | some count =>
      if count = 0 then .ok (some 0)
      else if elfHeader.ePhentsize.toNat < platform.sizeofPhdr then .ok none
      else
        match checkedMultiply platform.sizeMax count elfHeader.ePhentsize.toNat with
        | none => .ok none
        | some tableSize => do
          if ← isFileRangeReadable file elfHeader.ePhoff.toNat tableSize then pure (some count)
          else pure none

/-- `ReadProgramHeader`. -/
def readProgramHeader (index count tableOffset entrySize : ℕ) : Option (Phdr platform) :=
  if index ≥ count ∨ entrySize < platform.sizeofPhdr then none
  else
    (checkedMultiply platform.sizeMax index entrySize).bind fun entryOffset =>
      (checkedAdd platform.sizeMax tableOffset entryOffset).bind (readPhdr file)

/-- The loop of `ConvertDynamicAddressToFileOffset`, from an index on. -/
def searchSegment (tableOffset entrySize count address size index : ℕ) :
    ℕ → Checked (Option ℕ)
  | 0 => .ok none
  | remaining + 1 =>
    match readProgramHeader file index count tableOffset entrySize with
    | none => .ok none
    | some programHeader =>
      let segmentVaddr := programHeader.pVaddr.toNat
      let segmentFilesz := programHeader.pFilesz.toNat
      if programHeader.pType ≠ PT_LOAD ∨ address < segmentVaddr then
        searchSegment tableOffset entrySize count address size (index + 1) remaining
      else do
        let distance ← subtract address segmentVaddr
        if distance > segmentFilesz then
          searchSegment tableOffset entrySize count address size (index + 1) remaining
        else
          let available ← subtract segmentFilesz distance
          if size > available then
            searchSegment tableOffset entrySize count address size (index + 1) remaining
          else
            match checkedAdd uint64Max programHeader.pOffset.toNat distance with
            | none => pure none
            | some offset =>
              if offset > platform.sizeMax then pure none
              else if ← isFileRangeReadable file offset size then
                let fileOffset ← narrow platform.sizeMax offset
                pure (some fileOffset)
              else pure none

/-- `ConvertDynamicAddressToFileOffset`. -/
def convertDynamicAddressToFileOffset (elfHeader : Ehdr platform)
    (programHeaderCount address size : ℕ) : Checked (Option ℕ) :=
  searchSegment file elfHeader.ePhoff.toNat elfHeader.ePhentsize.toNat programHeaderCount address
    size 0 programHeaderCount

/-- `ReadSysVHashSymbolCount`. -/
def readSysVHashSymbolCount (offset : ℕ) : Checked (Option ℕ) := do
  if ← isFileRangeReadable file offset 8 then
    match readFromOffsetExact file 8 offset with
    | none => pure none
    | some header =>
      let bucketCount := platform.field header 0 4
      let chainCount := platform.field header 4 4
      match ((checkedAdd platform.sizeMax 2 bucketCount.toNat).bind fun wordCount =>
          checkedAdd platform.sizeMax wordCount chainCount.toNat).bind fun wordCount =>
          checkedMultiply platform.sizeMax wordCount 4 with
      | none => pure none
      | some tableSize =>
        if ← isFileRangeReadable file offset tableSize then pure (some chainCount.toNat)
        else pure none
  else pure none

/-! ### What is accepted -/

/-- The program header table that is accepted is empty or lies inside of the file. -/
theorem getProgramHeaderTableInfo_spec (elfHeader : Ehdr platform) :
    ∃ result, getProgramHeaderTableInfo file elfHeader = .ok result ∧
      ∀ count, result = some count → count ≠ 0 →
        platform.sizeofPhdr ≤ elfHeader.ePhentsize.toNat ∧
        elfHeader.ePhoff.toNat + count * elfHeader.ePhentsize.toNat ≤ file.contents.length := by
  rw [getProgramHeaderTableInfo]
  split
  · exact ⟨_, rfl, fun count hcount hne => absurd (Option.some.inj hcount).symm hne⟩
  rcases programHeaderCount file elfHeader with _ | count
  · exact ⟨none, rfl, nofun⟩
  dsimp only
  split
  · exact ⟨_, rfl, fun count hcount hne => absurd (Option.some.inj hcount).symm hne⟩
  split
  · exact ⟨none, rfl, nofun⟩
  rename_i hsize
  rcases hmultiply : checkedMultiply platform.sizeMax count elfHeader.ePhentsize.toNat with _ | size
  · exact ⟨none, rfl, nofun⟩
  obtain ⟨-, rfl⟩ := checkedMultiply_eq_some_iff.mp hmultiply
  dsimp only
  rw [isFileRangeReadable_eq, ok_bind]
  split
  · rename_i hreadable
    refine ⟨some count, rfl, fun count' hcount' _ => ?_⟩
    obtain rfl := Option.some.inj hcount'
    exact ⟨Nat.le_of_not_lt hsize, of_decide_eq_true hreadable⟩
  · exact ⟨none, rfl, nofun⟩

variable {file}

/-- A program header that is read has an index of the table and lies inside of the file. -/
theorem readProgramHeader_eq_some {index count tableOffset entrySize : ℕ}
    {header : Phdr platform} (hoffset : tableOffset ≤ platform.sizeMax)
    (h : readProgramHeader file index count tableOffset entrySize = some header) :
    index < count ∧ platform.sizeofPhdr ≤ entrySize ∧
      tableOffset + index * entrySize + platform.sizeofPhdr ≤ file.contents.length ∧
      header = file.phdrAt (tableOffset + index * entrySize) := by
  rw [readProgramHeader] at h
  split at h
  · cases h
  · rename_i hchecked
    obtain ⟨hindex, hsize⟩ := not_or.mp hchecked
    obtain ⟨entryOffset, hentry, h⟩ := Option.bind_eq_some_iff.mp h
    obtain ⟨offset, hadd, hread⟩ := Option.bind_eq_some_iff.mp h
    obtain ⟨-, rfl⟩ := checkedMultiply_eq_some_iff.mp hentry
    obtain ⟨-, rfl⟩ := (checkedAdd_eq_some_iff hoffset).mp hadd
    obtain ⟨hle, heq⟩ := readPhdr_eq_some_iff.mp hread
    exact ⟨Nat.lt_of_not_le hindex, Nat.le_of_not_lt hsize, hle, heq⟩

/-- The byte that a segment maps from the file at an address. -/
def Phdr.mapped (segment : Phdr platform) (file : File platform) (address : ℕ) : Option Byte :=
  if segment.pType = PT_LOAD ∧ segment.pVaddr.toNat ≤ address ∧
      address < segment.pVaddr.toNat + segment.pFilesz.toNat then
    file.contents[segment.pOffset.toNat + (address - segment.pVaddr.toNat)]?
  else none

/-- The bytes at an offset of the file are those that the segment maps in an address range. -/
structure Phdr.Maps (segment : Phdr platform) (file : File platform) (address size offset : ℕ) :
    Prop where
  isLoad : segment.pType = PT_LOAD
  begins : segment.pVaddr.toNat ≤ address
  ends : address + size ≤ segment.pVaddr.toNat + segment.pFilesz.toNat
  bytes (k : ℕ) : k < size → segment.mapped file (address + k) = file.contents[offset + k]?

theorem maps_of_offset {segment : Phdr platform} {address size : ℕ}
    (isLoad : segment.pType = PT_LOAD) (begins : segment.pVaddr.toNat ≤ address)
    (ends : address + size ≤ segment.pVaddr.toNat + segment.pFilesz.toNat) :
    segment.Maps file address size
      (segment.pOffset.toNat + (address - segment.pVaddr.toNat)) where
  isLoad := isLoad
  begins := begins
  ends := ends
  bytes k hk := by
    rw [Phdr.mapped, if_pos ⟨isLoad, by omega, by omega⟩]
    congr 1
    omega

/-- The loop over the segments, by induction on those that remain. -/
theorem searchSegment_spec {tableOffset : ℕ} (htable : tableOffset ≤ platform.sizeMax)
    (entrySize count address size remaining index : ℕ) :
    ∃ result, searchSegment file tableOffset entrySize count address size index remaining =
        .ok result ∧
      ∀ offset, result = some offset → offset + size ≤ file.contents.length ∧
        ∃ i, i < count ∧
          tableOffset + i * entrySize + platform.sizeofPhdr ≤ file.contents.length ∧
          (file.phdrAt (tableOffset + i * entrySize)).Maps file address size offset := by
  induction remaining generalizing index with
  | zero => exact ⟨none, rfl, nofun⟩
  | succ remaining ih =>
    rw [searchSegment]
    rcases hread : readProgramHeader file index count tableOffset entrySize with _ | programHeader
    · exact ⟨none, rfl, nofun⟩
    obtain ⟨hindex, -, hheader, rfl⟩ := readProgramHeader_eq_some htable hread
    dsimp only
    split
    · exact ih (index + 1)
    rename_i hsegment
    obtain ⟨htype, hbegin⟩ := not_or.mp hsegment
    have hle := Nat.le_of_not_lt hbegin
    rw [subtract_of_le hle, ok_bind]
    split
    · exact ih (index + 1)
    rename_i hdistance
    rw [subtract_of_le (Nat.le_of_not_lt hdistance), ok_bind]
    split
    · exact ih (index + 1)
    rename_i hsize
    have hpOffset := Nat.le_trans
      (Platform.addr_le_sizeMax (file.phdrAt (tableOffset + index * entrySize)).pOffset)
      platform.sizeMax_le
    rcases hadd : checkedAdd uint64Max
      (file.phdrAt (tableOffset + index * entrySize)).pOffset.toNat
      (address - (file.phdrAt (tableOffset + index * entrySize)).pVaddr.toNat) with _ | offset
    · exact ⟨none, rfl, nofun⟩
    obtain ⟨-, rfl⟩ := (checkedAdd_eq_some_iff hpOffset).mp hadd
    dsimp only
    split
    · exact ⟨none, rfl, nofun⟩
    rename_i hmax
    rw [isFileRangeReadable_eq, ok_bind]
    split
    · rename_i hreadable
      rw [narrow_of_le (Nat.le_of_not_lt hmax), ok_bind]
      refine ⟨_, rfl, fun offset hoffset => ?_⟩
      obtain rfl := Option.some.inj hoffset
      exact ⟨of_decide_eq_true hreadable, index, hindex, hheader,
        maps_of_offset (not_not.mp htype) hle (by omega)⟩
    · exact ⟨none, rfl, nofun⟩

/-- An address range that is converted is one that a segment maps from the file, and the offset is
that of its bytes. -/
theorem convertDynamicAddressToFileOffset_spec (file : File platform) (elfHeader : Ehdr platform)
    (count address size : ℕ) :
    ∃ result, convertDynamicAddressToFileOffset file elfHeader count address size = .ok result ∧
      ∀ offset, result = some offset → offset + size ≤ file.contents.length ∧
        ∃ i, i < count ∧ elfHeader.ePhoff.toNat + i * elfHeader.ePhentsize.toNat +
            platform.sizeofPhdr ≤ file.contents.length ∧
          (file.phdrAt (elfHeader.ePhoff.toNat + i * elfHeader.ePhentsize.toNat)).Maps file address
            size offset :=
  searchSegment_spec (Platform.addr_le_sizeMax _) _ _ _ _ _ _

/-- A hash table that is accepted lies inside of the file. -/
theorem readSysVHashSymbolCount_spec (file : File platform) (offset : ℕ) :
    ∃ result, readSysVHashSymbolCount file offset = .ok result ∧
      ∀ symbolCount, result = some symbolCount →
        offset + 4 * (2 + (platform.field (file.slice offset 8) 0 4).toNat + symbolCount) ≤
          file.contents.length ∧
        symbolCount = (platform.field (file.slice offset 8) 4 4).toNat := by
  have hsizeMax : 2 ≤ platform.sizeMax :=
    Nat.le_trans (Nat.le_trans (by decide) platform.le_kMaxFileOffset)
      (Nat.le_of_lt platform.kMaxFileOffset_lt_sizeMax)
  rw [readSysVHashSymbolCount, isFileRangeReadable_eq, ok_bind]
  split
  · rcases hread : readFromOffsetExact file 8 offset with _ | header
    · exact ⟨none, rfl, nofun⟩
    obtain ⟨-, rfl⟩ := (readFromOffsetExact_eq_some_iff file (by decide)).mp hread
    dsimp only
    split
    · exact ⟨none, rfl, nofun⟩
    · rename_i tableSize hchecked
      obtain ⟨wordCount, hwords, hmultiply⟩ := Option.bind_eq_some_iff.mp hchecked
      obtain ⟨firstCount, hfirst, hsecond⟩ := Option.bind_eq_some_iff.mp hwords
      obtain ⟨hle, rfl⟩ := (checkedAdd_eq_some_iff hsizeMax).mp hfirst
      obtain ⟨-, rfl⟩ := (checkedAdd_eq_some_iff hle).mp hsecond
      obtain ⟨-, rfl⟩ := checkedMultiply_eq_some_iff.mp hmultiply
      rw [isFileRangeReadable_eq, ok_bind]
      split
      · rename_i hreadable
        refine ⟨_, rfl, fun symbolCount hcount => ?_⟩
        obtain rfl := Option.some.inj hcount
        rw [Nat.mul_comm 4]
        exact ⟨of_decide_eq_true hreadable, rfl⟩
      · exact ⟨none, rfl, nofun⟩
  · exact ⟨none, rfl, nofun⟩

/-- For every file, whatever its headers hold: none of the functions computes a value that wraps
around, every table and every range that they accept lies inside of the file, and an address range
that is converted is one that a segment maps from the bytes at the offset. -/
theorem object_file_ranges (file : File platform) :
    (∀ (elfHeader : Ehdr platform) (wantsStringTable : Bool),
      ∃ result, getSectionTableInfo file elfHeader wantsStringTable = .ok result ∧
        ∀ info, result = some info → info.sectionCount ≠ 0 →
          info.sectionEntrySize = elfHeader.eShentsize.toNat ∧
          platform.sizeofShdr ≤ info.sectionEntrySize ∧
          elfHeader.eShoff.toNat + info.sectionCount * info.sectionEntrySize ≤
            file.contents.length ∧
          (wantsStringTable = true → info.stringTableIndex < info.sectionCount)) ∧
    (∀ name : List Byte, ∃ result, getSectionHeaderByName file name = .ok result ∧
      ∀ out, result = some out → ∃ elfHeader info shstrtab,
        readEhdr file = some elfHeader ∧
        getSectionTableInfo file elfHeader true = .ok (some info) ∧
        elfHeader.eShoff.toNat + info.sectionCount * info.sectionEntrySize ≤
          file.contents.length ∧
        (∃ i, i < info.sectionCount ∧
          out = file.shdrAt (elfHeader.eShoff.toNat + i * info.sectionEntrySize)) ∧
        shstrtab = file.shdrAt
          (elfHeader.eShoff.toNat + info.stringTableIndex * info.sectionEntrySize) ∧
        shstrtab.shOffset.toNat + shstrtab.shSize.toNat ≤ file.contents.length ∧
        out.shName.toNat + name.length ≤ shstrtab.shSize.toNat ∧
        file.slice (shstrtab.shOffset.toNat + out.shName.toNat) name.length = name) ∧
    (∀ elfHeader : Ehdr platform,
      ∃ result, getProgramHeaderTableInfo file elfHeader = .ok result ∧
        ∀ count, result = some count → count ≠ 0 →
          platform.sizeofPhdr ≤ elfHeader.ePhentsize.toNat ∧
          elfHeader.ePhoff.toNat + count * elfHeader.ePhentsize.toNat ≤ file.contents.length) ∧
    (∀ (index count entrySize : ℕ) (tableOffset : platform.Addr) (header : Phdr platform),
      readProgramHeader file index count tableOffset.toNat entrySize = some header →
        index < count ∧ platform.sizeofPhdr ≤ entrySize ∧
        tableOffset.toNat + index * entrySize + platform.sizeofPhdr ≤ file.contents.length ∧
        header = file.phdrAt (tableOffset.toNat + index * entrySize)) ∧
    (∀ (elfHeader : Ehdr platform) (count address size : ℕ),
      ∃ result, convertDynamicAddressToFileOffset file elfHeader count address size = .ok result ∧
        ∀ offset, result = some offset → offset + size ≤ file.contents.length ∧
          ∃ i, i < count ∧ elfHeader.ePhoff.toNat + i * elfHeader.ePhentsize.toNat +
              platform.sizeofPhdr ≤ file.contents.length ∧
            (file.phdrAt (elfHeader.ePhoff.toNat + i * elfHeader.ePhentsize.toNat)).Maps file
              address size offset) ∧
    (∀ offset : ℕ, ∃ result, readSysVHashSymbolCount file offset = .ok result ∧
      ∀ symbolCount, result = some symbolCount →
        offset + 4 * (2 + (platform.field (file.slice offset 8) 0 4).toNat + symbolCount) ≤
          file.contents.length ∧
        symbolCount = (platform.field (file.slice offset 8) 4 4).toNat) :=
  ⟨getSectionTableInfo_spec file, getSectionHeaderByName_spec file,
    getProgramHeaderTableInfo_spec file,
    fun _ _ _ _ _ h => readProgramHeader_eq_some (Platform.addr_le_sizeMax _) h,
    convertDynamicAddressToFileOffset_spec file, readSysVHashSymbolCount_spec file⟩

end Symbolize

end NgLog
