import NgLog.Symbolize.Sections

/-!
# The number of symbols in a GNU hash table

A GNU hash table does not store the number of symbols. Its buckets hold the index of the first
symbol of a chain, and the last word of a chain has the low bit set. `ReadGnuHashSymbolCount` walks
every chain, but only the index into the chains is advanced and not that of the symbol, so what it
counts are the first symbols of the chains.

## Main definitions

* `readGnuHashSymbolCount` — the function
* `GnuHashTable`, `GnuHashTable.StoredAt` — a well-formed table, and that a file holds it
* `GnuHashTable.OnChain`, `GnuHashTable.IsSymbolCount` — the symbols on the chains, and their count

## Main results

* `walkChain_eq`, `walkBuckets_spec` — a walk over one chain, and over the chains of some buckets
* `counts_symbols_iff` — the count is right exactly when the last chain has one symbol
-/

namespace NgLog

namespace Symbolize

variable {platform : Platform}

section Code

variable (file : File platform)

/-- The walk over a chain in `ReadGnuHashSymbolCount`: `max_symbol` after it. Each of its steps
leaves `symbol_index` as it is. -/
def walkChain (chainOffset : ℕ) (symbolIndex chainIndex : BitVec 32) (maxSymbol : ℕ) : Option ℕ :=
  match ((checkedMultiply platform.sizeMax chainIndex.toNat 4).bind
      (checkedAdd platform.sizeMax chainOffset)).bind (readWord file) with
  | none => none
  | some chainValue =>
    match (if symbolIndex.toNat ≥ maxSymbol then
        checkedAdd platform.sizeMax symbolIndex.toNat 1 else some maxSymbol) with
    | none => none
    | some maxSymbol =>
      if chainValue &&& 1 ≠ 0 then some maxSymbol
      else if chainIndex.toNat = 2 ^ 32 - 1 then none
      else walkChain chainOffset symbolIndex (chainIndex + 1) maxSymbol
  termination_by 2 ^ 32 - chainIndex.toNat
  decreasing_by
    have hlt := chainIndex.isLt
    have hnext : (chainIndex + 1).toNat = (chainIndex.toNat + 1) % 2 ^ 32 := rfl
    omega

/-- The loop of `ReadGnuHashSymbolCount` over the buckets, from an index on. -/
def walkBuckets (bucketOffset chainOffset : ℕ) (symoffset : BitVec 32) (index : ℕ) :
    ℕ → ℕ → Option ℕ
  | 0, maxSymbol => some maxSymbol
  | remaining + 1, maxSymbol =>
    match ((checkedMultiply platform.sizeMax index 4).bind
        (checkedAdd platform.sizeMax bucketOffset)).bind (readWord file) with
    | none => none
    | some bucket =>
      if bucket < symoffset then
        walkBuckets bucketOffset chainOffset symoffset (index + 1) remaining maxSymbol
      else
        (walkChain file chainOffset bucket (bucket - symoffset) maxSymbol).bind
          (walkBuckets bucketOffset chainOffset symoffset (index + 1) remaining)

/-- The offset of the buckets in `ReadGnuHashSymbolCount`, for the number of bloom words. -/
def gnuBucketOffset (platform : Platform) (offset : ℕ) (bloomCount : BitVec 32) : Option ℕ :=
  (checkedMultiply platform.sizeMax bloomCount.toNat (platform.wordBytes / 4)).bind
    fun bloomWordCount =>
      (checkedMultiply platform.sizeMax bloomWordCount 4).bind fun bloomSize =>
        (checkedAdd platform.sizeMax offset 16).bind fun bucketOffset =>
          checkedAdd platform.sizeMax bucketOffset bloomSize

/-- `ReadGnuHashSymbolCount`. -/
def readGnuHashSymbolCount (offset : ℕ) : Checked (Option ℕ) := do
  if ← isFileRangeReadable file offset 16 then
    match readFromOffsetExact file 16 offset with
    | none => pure none
    | some header =>
      match gnuBucketOffset platform offset (platform.field header 8 4) with
      | none => pure none
      | some bucketOffset =>
        match checkedMultiply platform.sizeMax (platform.field header 0 4).toNat 4 with
        | none => pure none
        | some bucketSize => do
          if ← isFileRangeReadable file bucketOffset bucketSize then
            match checkedAdd platform.sizeMax bucketOffset bucketSize with
            | none => pure none
            | some chainOffset =>
              pure (walkBuckets file bucketOffset chainOffset (platform.field header 4 4) 0
                (platform.field header 0 4).toNat (platform.field header 4 4).toNat)
          else pure none
  else pure none

end Code

/-! ### Hash tables -/

/-- The chain word at an index is there, and is the last of its chain. -/
def EndsChain (chains : List (BitVec 32)) (index : ℕ) : Prop :=
  ∃ word, chains[index]? = some word ∧ word &&& 1 ≠ 0

instance (chains : List (BitVec 32)) (index : ℕ) : Decidable (EndsChain chains index) :=
  match h : chains[index]? with
  | none => isFalse fun ⟨_, hsome, _⟩ => Option.some_ne_none _ (hsome.symm.trans h)
  | some word =>
    if hword : word &&& 1 ≠ 0 then isTrue ⟨word, h, hword⟩
    else isFalse fun ⟨_, hsome, hne⟩ => hword (Option.some.inj (h.symm.trans hsome) ▸ hne)

/-- A well-formed GNU hash table. -/
structure GnuHashTable (platform : Platform) where
  /-- The index of the first symbol with a chain word. -/
  symoffset : BitVec 32
  bloom : List platform.Addr
  bloomShift : BitVec 32
  /-- The index of the first symbol of the chain, 0 for an empty bucket. -/
  buckets : List (BitVec 32)
  chains : List (BitVec 32)
  /-- The index 0 is that of no symbol. -/
  symoffset_pos : 0 < symoffset.toNat
  bucket_valid : ∀ bucket ∈ buckets, bucket = 0 ∨ symoffset.toNat ≤ bucket.toNat
  chain_ends : ∀ bucket ∈ buckets, bucket ≠ 0 → ∃ last, bucket.toNat ≤ last ∧
    EndsChain chains (last - symoffset.toNat)
  /-- The number of symbols is a `std::uint32_t`. -/
  count_lt : symoffset.toNat + chains.length < 2 ^ 32

namespace GnuHashTable

/-- The last symbol of a chain. -/
def IsLast (table : GnuHashTable platform) (index : ℕ) : Prop :=
  EndsChain table.chains (index - table.symoffset.toNat)

/-- The symbols that lie on the chain of some bucket. -/
inductive OnChain (table : GnuHashTable platform) : ℕ → Prop
  | first {bucket : BitVec 32} :
      bucket ∈ table.buckets → bucket ≠ 0 → OnChain table bucket.toNat
  | next {index : ℕ} : OnChain table index → ¬table.IsLast index → OnChain table (index + 1)

/-- One more than the largest symbol index on any chain, or `symoffset` if there is none. -/
def IsSymbolCount (table : GnuHashTable platform) (count : ℕ) : Prop :=
  ((∀ bucket ∈ table.buckets, bucket = 0) ∧ count = table.symoffset.toNat) ∨
    ∃ index, table.OnChain index ∧ (∀ other, table.OnChain other → other ≤ index) ∧
      count = index + 1

/-- The chain that begins last has one symbol, if there is any chain. -/
def LastChainSingle (table : GnuHashTable platform) : Prop :=
  ∀ bucket ∈ table.buckets, bucket ≠ 0 →
    (∀ other ∈ table.buckets, other.toNat ≤ bucket.toNat) → table.IsLast bucket.toNat

/-- The offset of the buckets, for the offset of the table. -/
def bucketOffset (table : GnuHashTable platform) (offset : ℕ) : ℕ :=
  offset + 16 + table.bloom.length * platform.wordBytes

/-- The offset of the chains, for the offset of the table. -/
def chainOffset (table : GnuHashTable platform) (offset : ℕ) : ℕ :=
  table.bucketOffset offset + table.buckets.length * 4

/-- A file holds the table at an offset. -/
structure StoredAt (table : GnuHashTable platform) (file : File platform) (offset : ℕ) : Prop where
  bucketCount : (file.wordAt offset).toNat = table.buckets.length
  symoffset : file.wordAt (offset + 4) = table.symoffset
  bloomCount : (file.wordAt (offset + 8)).toNat = table.bloom.length
  bloomShift : file.wordAt (offset + 12) = table.bloomShift
  bloom (i : ℕ) (h : i < table.bloom.length) :
    file.addrAt (offset + 16 + i * platform.wordBytes) = table.bloom[i]
  buckets (i : ℕ) (h : i < table.buckets.length) :
    file.wordAt (table.bucketOffset offset + i * 4) = table.buckets[i]
  chains (i : ℕ) (h : i < table.chains.length) :
    file.wordAt (table.chainOffset offset + i * 4) = table.chains[i]
  inside : table.chainOffset offset + table.chains.length * 4 ≤ file.contents.length

variable {table : GnuHashTable platform}

theorem lt_length_of_endsChain {chains : List (BitVec 32)} {index : ℕ}
    (h : EndsChain chains index) : index < chains.length := by
  obtain ⟨_, hword, -⟩ := h
  exact (List.getElem?_eq_some_iff.mp hword).1

theorem bucket_ge (table : GnuHashTable platform) {bucket : BitVec 32}
    (h : bucket ∈ table.buckets) (hne : bucket ≠ 0) :
    table.symoffset.toNat ≤ bucket.toNat := (table.bucket_valid bucket h).resolve_left hne

/-- A bucket is skipped if it is empty. -/
theorem bucket_lt_iff (table : GnuHashTable platform) {bucket : BitVec 32}
    (h : bucket ∈ table.buckets) : bucket < table.symoffset ↔ bucket = 0 := by
  rw [BitVec.lt_def]
  constructor
  · intro hlt
    by_contra hne
    exact Nat.not_le.mpr hlt (table.bucket_ge h hne)
  · rintro rfl
    exact table.symoffset_pos

/-- Up to a last symbol, the symbols on the chains do not go past it. -/
theorem onChain_le_of_isLast {last : ℕ} (hlast : table.IsLast last)
    (hbuckets : ∀ bucket ∈ table.buckets, bucket.toNat ≤ last) {index : ℕ}
    (h : table.OnChain index) : index ≤ last := by
  induction h with
  | first hmem _ => exact hbuckets _ hmem
  | next _ hnext ih =>
    rename_i index _
    have hne : index ≠ last := by
      rintro rfl
      exact hnext hlast
    omega

end GnuHashTable

/-! ### What is counted -/

section Counted

variable {file : File platform} {table : GnuHashTable platform} {offset : ℕ}

/-- The walk over a chain counts its first symbol, by induction on the words up to its end. -/
theorem walkChain_eq (hstored : table.StoredAt file offset) {symbolIndex : BitVec 32}
    (hmax : symbolIndex.toNat + 1 ≤ platform.sizeMax) {last : ℕ}
    (hlast : EndsChain table.chains last) {chainIndex : BitVec 32} (hle : chainIndex.toNat ≤ last)
    (maxSymbol : ℕ) :
    walkChain file (table.chainOffset offset) symbolIndex chainIndex maxSymbol =
      some (max maxSymbol (symbolIndex.toNat + 1)) := by
  have hlength := GnuHashTable.lt_length_of_endsChain hlast
  have hinside := hstored.inside
  have hfile := length_le_sizeMax file
  have hcount := table.count_lt
  induction hsteps : last - chainIndex.toNat using Nat.strongRecOn
    generalizing chainIndex maxSymbol with
  | _ steps ih =>
    have hread : readWord file (table.chainOffset offset + chainIndex.toNat * 4) = _ :=
      readWord_of_le (by omega)
    have hindex : chainIndex.toNat < table.chains.length := by omega
    have hcounted : (if symbolIndex.toNat ≥ maxSymbol then
        checkedAdd platform.sizeMax symbolIndex.toNat 1 else some maxSymbol) =
        some (max maxSymbol (symbolIndex.toNat + 1)) := by
      split
      · rw [checkedAdd_of_le hmax, Nat.max_eq_right (by omega)]
      · rw [Nat.max_eq_left (by omega)]
    rw [walkChain, checkedMultiply_of_le (by omega), Option.bind_some,
      checkedAdd_of_le (by omega), Option.bind_some, hread, hstored.chains _ hindex, hcounted]
    dsimp only
    by_cases hbit : table.chains[chainIndex.toNat] &&& 1 ≠ 0
    · rw [if_pos hbit]
    · have hne : chainIndex.toNat ≠ last := by
        rintro rfl
        obtain ⟨word, hword, hlow⟩ := hlast
        obtain ⟨_, rfl⟩ := List.getElem?_eq_some_iff.mp hword
        exact hbit hlow
      have hnext : (chainIndex + 1).toNat = chainIndex.toNat + 1 := by
        change (chainIndex.toNat + 1) % 2 ^ 32 = _
        omega
      rw [if_neg hbit, if_neg (by omega),
        ih (last - (chainIndex + 1).toNat) (by omega) (by omega) _ rfl, Nat.max_assoc,
        Nat.max_self]

theorem le_sizeMax_of_lt (platform : Platform) {value : ℕ} (h : value < 2 ^ 32) :
    value ≤ platform.sizeMax := by
  rw [Platform.sizeMax, Platform.wordBytes]
  cases platform.wordSize
  · change value ≤ 2 ^ 32 - 1
    omega
  · change value ≤ 2 ^ 64 - 1
    omega

/-- The walk over some buckets gives one more than the largest of their first symbols, by induction
on the buckets. -/
theorem walkBuckets_spec (hstored : table.StoredAt file offset) (remaining index : ℕ)
    (hindex : index + remaining = table.buckets.length) (maxSymbol : ℕ) :
    ∃ count, walkBuckets file (table.bucketOffset offset) (table.chainOffset offset)
        table.symoffset index remaining maxSymbol = some count ∧
      maxSymbol ≤ count ∧
      (∀ bucket ∈ table.buckets.drop index, bucket ≠ 0 → bucket.toNat + 1 ≤ count) ∧
      (count = maxSymbol ∨
        ∃ bucket ∈ table.buckets.drop index, bucket ≠ 0 ∧ count = bucket.toNat + 1) := by
  have hinside := hstored.inside
  have hfile := length_le_sizeMax file
  rw [GnuHashTable.chainOffset] at hinside
  induction remaining generalizing index maxSymbol with
  | zero =>
    rw [List.drop_of_length_le (by omega)]
    exact ⟨maxSymbol, rfl, Nat.le_refl _, nofun, Or.inl rfl⟩
  | succ remaining ih =>
    have hlt : index < table.buckets.length := by omega
    have hmem : table.buckets[index] ∈ table.buckets := List.getElem_mem hlt
    rw [walkBuckets, checkedMultiply_of_le (by omega), Option.bind_some,
      checkedAdd_of_le (by omega), Option.bind_some, readWord_of_le (by omega),
      hstored.buckets _ hlt, List.drop_eq_getElem_cons hlt]
    dsimp only
    by_cases hempty : table.buckets[index] = 0
    · rw [if_pos ((table.bucket_lt_iff hmem).mpr hempty)]
      obtain ⟨count, hwalk, hle, hall, hcount⟩ := ih (index + 1) (by omega) maxSymbol
      refine ⟨count, hwalk, hle, ?_, hcount.imp_right ?_⟩
      · intro bucket hbucket hne
        rcases List.mem_cons.mp hbucket with rfl | hrest
        · exact absurd hempty hne
        · exact hall bucket hrest hne
      · rintro ⟨bucket, hrest, h⟩
        exact ⟨bucket, List.mem_cons_of_mem _ hrest, h⟩
    · have hge := table.bucket_ge hmem hempty
      obtain ⟨last, hlast, hends⟩ := table.chain_ends _ hmem hempty
      have hchain : (table.buckets[index] - table.symoffset).toNat =
          table.buckets[index].toNat - table.symoffset.toNat := BitVec.toNat_sub_of_le hge
      have hlength := GnuHashTable.lt_length_of_endsChain hends
      have htotal := table.count_lt
      rw [if_neg fun h => hempty ((table.bucket_lt_iff hmem).mp h),
        walkChain_eq hstored (le_sizeMax_of_lt platform (by omega)) hends (by omega),
        Option.bind_some]
      obtain ⟨count, hwalk, hle, hall, hcount⟩ := ih (index + 1) (by omega)
        (max maxSymbol (table.buckets[index].toNat + 1))
      refine ⟨count, hwalk, by omega, ?_, ?_⟩
      · intro bucket hbucket hne
        rcases List.mem_cons.mp hbucket with rfl | hrest
        · omega
        · exact hall bucket hrest hne
      · rcases hcount with hcount | ⟨bucket, hrest, h⟩
        · rcases Nat.le_total maxSymbol (table.buckets[index].toNat + 1) with hmax | hmax
          · rw [Nat.max_eq_right hmax] at hcount
            exact Or.inr ⟨_, List.mem_cons_self, hempty, hcount⟩
          · rw [Nat.max_eq_left hmax] at hcount
            exact Or.inl hcount
        · exact Or.inr ⟨bucket, List.mem_cons_of_mem _ hrest, h⟩

/-- What `ReadGnuHashSymbolCount` gives for a table that a file holds: one more than the first
symbol of the chain that begins last. -/
theorem readGnuHashSymbolCount_spec (hstored : table.StoredAt file offset) :
    ∃ count, readGnuHashSymbolCount file offset = .ok (some count) ∧
      table.symoffset.toNat ≤ count ∧
      (∀ bucket ∈ table.buckets, bucket ≠ 0 → bucket.toNat + 1 ≤ count) ∧
      (count = table.symoffset.toNat ∨
        ∃ bucket ∈ table.buckets, bucket ≠ 0 ∧ count = bucket.toNat + 1) := by
  have hfile := length_le_sizeMax file
  have hinside := hstored.inside
  rw [GnuHashTable.chainOffset, GnuHashTable.bucketOffset] at hinside
  have hheader : offset + 16 ≤ file.contents.length := by omega
  have hbucketCount : platform.field (file.slice offset 16) 0 4 = file.wordAt offset :=
    field_slice (by decide)
  have hsymoffset : platform.field (file.slice offset 16) 4 4 = table.symoffset :=
    (field_slice (by decide)).trans hstored.symoffset
  have hbloomCount : platform.field (file.slice offset 16) 8 4 = file.wordAt (offset + 8) :=
    field_slice (by decide)
  have hbloom : table.bloom.length * (platform.wordBytes / 4) * 4 =
      table.bloom.length * platform.wordBytes := by
    rw [Nat.mul_assoc, Platform.wordBytes]
    cases platform.wordSize <;> rfl
  have hbucketOffset : gnuBucketOffset platform offset (file.wordAt (offset + 8)) =
      some (table.bucketOffset offset) := by
    rw [gnuBucketOffset, hstored.bloomCount, checkedMultiply_of_le (by omega), Option.bind_some,
      checkedMultiply_of_le (by omega), Option.bind_some, checkedAdd_of_le (by omega),
      Option.bind_some, checkedAdd_of_le (by omega), hbloom, GnuHashTable.bucketOffset]
  have hbuckets : table.bucketOffset offset + table.buckets.length * 4 ≤
      file.contents.length := by
    rw [GnuHashTable.bucketOffset]
    omega
  have hread : readFromOffsetExact file 16 offset = some (file.slice offset 16) :=
    (readFromOffsetExact_eq_some_iff file (by decide)).mpr ⟨hheader, rfl⟩
  obtain ⟨count, hwalk, hcount⟩ := walkBuckets_spec hstored table.buckets.length 0
    (Nat.zero_add _) table.symoffset.toNat
  refine ⟨count, ?_, hcount⟩
  rw [readGnuHashSymbolCount, isFileRangeReadable_eq, ok_bind, if_pos (decide_eq_true hheader),
    hread]
  dsimp only
  rw [hbloomCount, hbucketOffset, hbucketCount, hstored.bucketCount, hsymoffset]
  dsimp only
  rw [checkedMultiply_of_le (by omega)]
  dsimp only
  rw [isFileRangeReadable_eq, ok_bind, if_pos (decide_eq_true hbuckets),
    checkedAdd_of_le (by omega)]
  exact congrArg Except.ok hwalk

/-- If the count is right, the symbol after the first of the last chain is on no chain. -/
theorem lastChainSingle_of_counts (hstored : table.StoredAt file offset) {count : ℕ}
    (hread : readGnuHashSymbolCount file offset = .ok (some count))
    (hcorrect : table.IsSymbolCount count) : table.LastChainSingle := by
  obtain ⟨count', hread', hge, hall, hcount⟩ := readGnuHashSymbolCount_spec hstored
  obtain rfl := Option.some.inj (Except.ok.inj (hread.symm.trans hread'))
  intro bucket hmem hne hlargest
  have hbucket : count = bucket.toNat + 1 := by
    have hle := hall bucket hmem hne
    rcases hcount with rfl | ⟨other, hother, -, rfl⟩
    · have hsymoffset := table.bucket_ge hmem hne
      omega
    · have hother' := hlargest other hother
      omega
  rcases hcorrect with ⟨hempty, -⟩ | ⟨index, -, hlast, hindex⟩
  · exact absurd (hempty bucket hmem) hne
  · by_contra hnot
    have hnext := hlast _ (.next (.first hmem hne) hnot)
    omega

theorem counts_of_lastChainSingle (hstored : table.StoredAt file offset)
    (hsingle : table.LastChainSingle) :
    ∃ count, readGnuHashSymbolCount file offset = .ok (some count) ∧
      table.IsSymbolCount count := by
  obtain ⟨count, hread, hge, hall, hcount⟩ := readGnuHashSymbolCount_spec hstored
  refine ⟨count, hread, ?_⟩
  rcases hcount with rfl | ⟨bucket, hmem, hne, rfl⟩
  · refine Or.inl ⟨fun bucket hmem => ?_, rfl⟩
    by_contra hne
    have hle := hall bucket hmem hne
    have hsymoffset := table.bucket_ge hmem hne
    omega
  · have hlargest : ∀ other ∈ table.buckets, other.toNat ≤ bucket.toNat := by
      intro other hother
      by_cases hzero : other = 0
      · rw [hzero]
        exact Nat.zero_le _
      · exact Nat.le_of_succ_le_succ (hall other hother hzero)
    exact Or.inr ⟨bucket.toNat, .first hmem hne, fun other hother =>
      GnuHashTable.onChain_le_of_isLast (hsingle bucket hmem hne hlargest) hlargest hother, rfl⟩

/-- The count is right exactly when every bucket is empty or the chain that begins last has one
symbol. -/
theorem counts_symbols_iff (table : GnuHashTable platform) (file : File platform) (offset : ℕ)
    (hstored : table.StoredAt file offset) :
    (∃ count, readGnuHashSymbolCount file offset = .ok (some count) ∧
      table.IsSymbolCount count) ↔ table.LastChainSingle :=
  ⟨fun ⟨_, hread, hcorrect⟩ => lastChainSingle_of_counts hstored hread hcorrect,
    counts_of_lastChainSingle hstored⟩

end Counted

section Examples

/-- A 64-bit machine that stores the low byte first. -/
def littleEndian64 : Platform := ⟨.bits64, true⟩

/-- Two chains of one symbol each. -/
def singleChains : GnuHashTable littleEndian64 where
  symoffset := 1
  bloom := [0]
  bloomShift := 6
  buckets := [1, 2]
  chains := [3, 5]
  symoffset_pos := by decide
  bucket_valid := List.forall_mem_cons.mpr
    ⟨Or.inr (by decide), List.forall_mem_singleton.mpr (Or.inr (by decide))⟩
  chain_ends := List.forall_mem_cons.mpr ⟨fun _ => ⟨1, by decide, by decide⟩,
    List.forall_mem_singleton.mpr fun _ => ⟨2, by decide, by decide⟩⟩
  count_lt := by
    change 1 + 2 < 2 ^ 32
    omega

def singleChainsFile : File littleEndian64 :=
  .ofContents [2, 0, 0, 0, 1, 0, 0, 0, 1, 0, 0, 0, 6, 0, 0, 0, 0, 0, 0, 0, 0, 0, 0, 0,
    1, 0, 0, 0, 2, 0, 0, 0, 3, 0, 0, 0, 5, 0, 0, 0] (by decide)

theorem counts_symbols_iff_single :
    (∃ count, readGnuHashSymbolCount singleChainsFile 0 = .ok (some count) ∧
      singleChains.IsSymbolCount count) ↔ singleChains.LastChainSingle :=
  counts_symbols_iff singleChains singleChainsFile 0
    { bucketCount := by decide, symoffset := by decide, bloomCount := by decide,
      bloomShift := by decide, bloom := by decide, buckets := by decide, chains := by decide,
      inside := by decide }

/-- One chain of two symbols. -/
def pairChain : GnuHashTable littleEndian64 where
  symoffset := 1
  bloom := [0]
  bloomShift := 6
  buckets := [1]
  chains := [2, 3]
  symoffset_pos := by decide
  bucket_valid := List.forall_mem_singleton.mpr (Or.inr (by decide))
  chain_ends := List.forall_mem_singleton.mpr fun _ => ⟨2, by decide, by decide⟩
  count_lt := by
    change 1 + 2 < 2 ^ 32
    omega

def pairChainFile : File littleEndian64 :=
  .ofContents [1, 0, 0, 0, 1, 0, 0, 0, 1, 0, 0, 0, 6, 0, 0, 0, 0, 0, 0, 0, 0, 0, 0, 0,
    1, 0, 0, 0, 2, 0, 0, 0, 3, 0, 0, 0] (by decide)

/-- The second symbol of a chain is not counted. -/
theorem not_counts_pair :
    pairChain.StoredAt pairChainFile 0 ∧
      ¬∃ count, readGnuHashSymbolCount pairChainFile 0 = .ok (some count) ∧
        pairChain.IsSymbolCount count := by
  have hstored : pairChain.StoredAt pairChainFile 0 :=
    { bucketCount := by decide, symoffset := by decide, bloomCount := by decide,
      bloomShift := by decide, bloom := by decide, buckets := by decide, chains := by decide,
      inside := by decide }
  refine ⟨hstored, ?_⟩
  rintro ⟨count, hread, hcorrect⟩
  have hlast := lastChainSingle_of_counts hstored hread hcorrect 1 List.mem_cons_self (by decide)
    (List.forall_mem_singleton.mpr (Nat.le_refl _))
  obtain ⟨word, hword, hlow⟩ := hlast
  obtain rfl : 2 = word := Option.some.inj hword
  exact hlow (by decide)

end Examples

end Symbolize

end NgLog
