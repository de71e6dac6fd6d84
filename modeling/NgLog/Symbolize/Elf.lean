import NgLog.Symbolize.ObjectFile

/-!
# The structures of an ELF file

The structures are read as they lie in memory, in the byte order of the machine and with the layout
of the class that its pointers have. Only the fields that the symbolizer uses are kept. Each has the
width of its type, so whatever the bytes are, a field is a value of that type.

## Main definitions

* `Platform.field` — an unsigned field of a structure
* `Ehdr`, `Shdr`, `Phdr`, `Sym` — the structures
* `readEhdr`, `readShdr`, `readPhdr` — reading one of them from a file
* `File.table` — the entries of a table in a file

## Main results

* `entriesOf_slice` — entries that are read at once are those of the table
* `readEhdr_eq_some_iff`, `readShdr_eq_some_iff`, `readPhdr_eq_some_iff` — what is read, and that it
  lies inside of the file
-/

namespace NgLog

namespace Symbolize

namespace Platform

variable (platform : Platform)

/-- The value of some bytes in memory. -/
def decode (bytes : List Byte) : ℕ :=
  if platform.isLittleEndian then bytes.foldr (fun byte value => byte.toNat + 256 * value) 0
  else bytes.foldl (fun value byte => 256 * value + byte.toNat) 0

/-- An unsigned field at an offset of a structure. -/
def field (bytes : List Byte) (offset size : ℕ) : BitVec (8 * size) :=
  BitVec.ofNat (8 * size) (platform.decode ((bytes.drop offset).take size))

/-- The offset of a field, for the two classes. -/
def fieldOffset (offset32 offset64 : ℕ) : ℕ :=
  match platform.wordSize with
  | .bits32 => offset32
  | .bits64 => offset64

/-- `ElfW(Addr)`, `ElfW(Off)`, and `Elf32_Word` or `Elf64_Xword` where the classes differ. -/
abbrev Addr : Type := BitVec (8 * platform.wordBytes)

def addrField (bytes : List Byte) (offset32 offset64 : ℕ) : platform.Addr :=
  platform.field bytes (platform.fieldOffset offset32 offset64) platform.wordBytes

/-- `sizeof(ElfW(Ehdr))`. -/
def sizeofEhdr : ℕ := platform.fieldOffset 52 64

/-- `sizeof(ElfW(Shdr))`. -/
def sizeofShdr : ℕ := platform.fieldOffset 40 64

/-- `sizeof(ElfW(Phdr))`. -/
def sizeofPhdr : ℕ := platform.fieldOffset 32 56

/-- `sizeof(ElfW(Sym))`. -/
def sizeofSym : ℕ := platform.fieldOffset 16 24

theorem fieldOffset_pos {offset32 offset64 : ℕ} (h32 : 0 < offset32) (h64 : 0 < offset64) :
    0 < platform.fieldOffset offset32 offset64 := by
  rw [fieldOffset]
  cases platform.wordSize
  · exact h32
  · exact h64

theorem sizeofEhdr_pos : 0 < platform.sizeofEhdr := platform.fieldOffset_pos (by decide) (by decide)

theorem sizeofShdr_pos : 0 < platform.sizeofShdr := platform.fieldOffset_pos (by decide) (by decide)

theorem sizeofPhdr_pos : 0 < platform.sizeofPhdr := platform.fieldOffset_pos (by decide) (by decide)

theorem sizeofSym_pos : 0 < platform.sizeofSym := platform.fieldOffset_pos (by decide) (by decide)

/-- A field of the width of a pointer is a `std::size_t`. -/
theorem addr_le_sizeMax {platform : Platform} (value : platform.Addr) :
    value.toNat ≤ platform.sizeMax := Nat.le_sub_one_of_lt value.isLt

end Platform

variable {platform : Platform}

/-- `ElfW(Ehdr)`. -/
structure Ehdr (platform : Platform) where
  eIdent : List Byte
  eVersion : BitVec 32
  ePhoff : platform.Addr
  eShoff : platform.Addr
  eEhsize : BitVec 16
  ePhentsize : BitVec 16
  ePhnum : BitVec 16
  eShentsize : BitVec 16
  eShnum : BitVec 16
  eShstrndx : BitVec 16

/-- `ElfW(Shdr)`. -/
structure Shdr (platform : Platform) where
  shName : BitVec 32
  shType : BitVec 32
  shOffset : platform.Addr
  shSize : platform.Addr
  shLink : BitVec 32
  shInfo : BitVec 32
  shEntsize : platform.Addr
  deriving DecidableEq

/-- `ElfW(Phdr)`. -/
structure Phdr (platform : Platform) where
  pType : BitVec 32
  pOffset : platform.Addr
  pVaddr : platform.Addr
  pFilesz : platform.Addr

/-- `ElfW(Sym)`. -/
structure Sym (platform : Platform) where
  stName : BitVec 32
  stInfo : BitVec 8
  stShndx : BitVec 16
  stValue : platform.Addr
  stSize : platform.Addr

def Ehdr.decode (platform : Platform) (bytes : List Byte) : Ehdr platform :=
  { eIdent := bytes.take 16
    eVersion := platform.field bytes 20 4
    ePhoff := platform.addrField bytes 28 32
    eShoff := platform.addrField bytes 32 40
    eEhsize := platform.field bytes (platform.fieldOffset 40 52) 2
    ePhentsize := platform.field bytes (platform.fieldOffset 42 54) 2
    ePhnum := platform.field bytes (platform.fieldOffset 44 56) 2
    eShentsize := platform.field bytes (platform.fieldOffset 46 58) 2
    eShnum := platform.field bytes (platform.fieldOffset 48 60) 2
    eShstrndx := platform.field bytes (platform.fieldOffset 50 62) 2 }

def Shdr.decode (platform : Platform) (bytes : List Byte) : Shdr platform :=
  { shName := platform.field bytes 0 4
    shType := platform.field bytes 4 4
    shOffset := platform.addrField bytes 16 24
    shSize := platform.addrField bytes 20 32
    shLink := platform.field bytes (platform.fieldOffset 24 40) 4
    shInfo := platform.field bytes (platform.fieldOffset 28 44) 4
    shEntsize := platform.addrField bytes 36 56 }

def Phdr.decode (platform : Platform) (bytes : List Byte) : Phdr platform :=
  { pType := platform.field bytes 0 4
    pOffset := platform.addrField bytes 4 8
    pVaddr := platform.addrField bytes 8 16
    pFilesz := platform.addrField bytes 16 32 }

def Sym.decode (platform : Platform) (bytes : List Byte) : Sym platform :=
  { stName := platform.field bytes 0 4
    stInfo := platform.field bytes (platform.fieldOffset 12 4) 1
    stShndx := platform.field bytes (platform.fieldOffset 14 6) 2
    stValue := platform.addrField bytes 4 8
    stSize := platform.addrField bytes 8 16 }

/-- `IsSupportedElfHeader`. -/
def isSupportedElfHeader (elfHeader : Ehdr platform) : Bool :=
  let kExpectedElfClass : Byte :=
    match platform.wordSize with
    | .bits32 => 1
    | .bits64 => 2
  let expectedData : Byte := if platform.isLittleEndian then 1 else 2
  elfHeader.eIdent.take 4 = 0x7f :: bytes "ELF" && elfHeader.eIdent[4]? = some kExpectedElfClass &&
    elfHeader.eIdent[5]? = some expectedData && elfHeader.eIdent[6]? = some 1 &&
    elfHeader.eVersion = 1 && elfHeader.eEhsize.toNat = platform.sizeofEhdr

/-! ### Reading -/

section Reading

variable (file : File platform)

/-- The bytes of a range of the file. -/
def File.slice (offset size : ℕ) : List Byte := (file.contents.drop offset).take size

def File.shdrAt (offset : ℕ) : Shdr platform :=
  .decode platform (file.slice offset platform.sizeofShdr)

def File.phdrAt (offset : ℕ) : Phdr platform :=
  .decode platform (file.slice offset platform.sizeofPhdr)

/-- A `std::uint32_t` in the file. -/
def File.wordAt (offset : ℕ) : BitVec 32 := platform.field (file.slice offset 4) 0 4

/-- An `ElfW(Addr)` in the file. -/
def File.addrAt (offset : ℕ) : platform.Addr :=
  platform.field (file.slice offset platform.wordBytes) 0 platform.wordBytes

def readEhdr : Option (Ehdr platform) :=
  (readFromOffsetExact file platform.sizeofEhdr 0).map (.decode platform)

def readShdr (offset : ℕ) : Option (Shdr platform) :=
  (readFromOffsetExact file platform.sizeofShdr offset).map (.decode platform)

def readPhdr (offset : ℕ) : Option (Phdr platform) :=
  (readFromOffsetExact file platform.sizeofPhdr offset).map (.decode platform)

def readWord (offset : ℕ) : Option (BitVec 32) :=
  (readFromOffsetExact file 4 offset).map fun word => platform.field word 0 4

/-- The entries of a table in the file, `count` of them from `first` on. -/
def File.table {α : Type} (decode : List Byte → α) (base size first count : ℕ) : List α :=
  (List.range' first count).map fun index => decode (file.slice (base + index * size) size)

/-- The entries of a table in a buffer. -/
def entriesOf {α : Type} (decode : List Byte → α) (size count : ℕ) (buf : List Byte) : List α :=
  (List.range count).map fun index => decode ((buf.drop (index * size)).take size)

theorem File.table_append {α : Type} (decode : List Byte → α) (base size first count more : ℕ) :
    file.table decode base size first count ++ file.table decode base size (first + count) more =
      file.table decode base size first (count + more) := by
  rw [table, table, table, ← List.map_append]
  congr 1
  rw [← List.range'_append, Nat.one_mul]

/-- A batch of entries that is read at once. -/
theorem entriesOf_slice {α : Type} (decode : List Byte → α) (base size first count : ℕ) :
    entriesOf decode size count (file.slice (base + first * size) (count * size)) =
      file.table decode base size first count := by
  rw [entriesOf, File.table, List.range_eq_range', List.range'_eq_map_range (s := first),
    ← List.range_eq_range', List.map_map]
  refine List.map_congr_left fun index hindex => ?_
  have hlt := List.mem_range.mp hindex
  have hle : size ≤ count * size - index * size := by
    have hsucc := Nat.mul_le_mul_right size (Nat.succ_le_of_lt hlt)
    rw [Nat.succ_mul] at hsucc
    omega
  have hoffset : base + first * size + index * size = base + (first + index) * size := by
    rw [Nat.add_mul, Nat.add_assoc]
  rw [File.slice, List.drop_take, List.drop_drop, List.take_take, Nat.min_eq_left hle, hoffset]
  rfl

variable {file}

/-- A field of bytes of the file has the bytes of the file. -/
theorem field_slice {offset size field fieldSize : ℕ} (h : field + fieldSize ≤ size) :
    platform.field (file.slice offset size) field fieldSize =
      platform.field (file.slice (offset + field) fieldSize) 0 fieldSize := by
  rw [Platform.field, Platform.field, File.slice, File.slice, List.drop_zero, List.drop_take,
    List.drop_drop, List.take_take, List.take_take, Nat.min_self, Nat.min_eq_left (by omega)]

theorem map_readFromOffsetExact_eq_some_iff {α : Type} (f : List Byte → α) {count offset : ℕ}
    (hpos : 0 < count) {a : α} :
    (readFromOffsetExact file count offset).map f = some a ↔
      offset + count ≤ file.contents.length ∧ a = f (file.slice offset count) := by
  rw [Option.map_eq_some_iff]
  constructor
  · rintro ⟨bytes, hread, rfl⟩
    obtain ⟨hle, rfl⟩ := (readFromOffsetExact_eq_some_iff file hpos).mp hread
    exact ⟨hle, rfl⟩
  · rintro ⟨hle, rfl⟩
    exact ⟨_, (readFromOffsetExact_eq_some_iff file hpos).mpr ⟨hle, rfl⟩, rfl⟩

theorem readEhdr_eq_some_iff {elfHeader : Ehdr platform} :
    readEhdr file = some elfHeader ↔ 0 + platform.sizeofEhdr ≤ file.contents.length ∧
      elfHeader = .decode platform (file.slice 0 platform.sizeofEhdr) :=
  map_readFromOffsetExact_eq_some_iff _ platform.sizeofEhdr_pos

theorem readShdr_eq_some_iff {offset : ℕ} {header : Shdr platform} :
    readShdr file offset = some header ↔
      offset + platform.sizeofShdr ≤ file.contents.length ∧ header = file.shdrAt offset :=
  map_readFromOffsetExact_eq_some_iff _ platform.sizeofShdr_pos

theorem readPhdr_eq_some_iff {offset : ℕ} {header : Phdr platform} :
    readPhdr file offset = some header ↔
      offset + platform.sizeofPhdr ≤ file.contents.length ∧ header = file.phdrAt offset :=
  map_readFromOffsetExact_eq_some_iff _ platform.sizeofPhdr_pos

theorem readWord_of_le {offset : ℕ} (h : offset + 4 ≤ file.contents.length) :
    readWord file offset = some (file.wordAt offset) :=
  (map_readFromOffsetExact_eq_some_iff _ (by decide)).mpr ⟨h, rfl⟩

end Reading

end Symbolize

end NgLog
