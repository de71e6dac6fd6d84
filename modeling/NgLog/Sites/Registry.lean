import NgLog.Support.Bytes
import NgLog.Support.Interference

/-!
# The registry of call sites

The experimental logging functions keep state for each call site, which is told by its file,
function, line and column. `SiteRegistry::Get` looks a site up in a map, under a lock. In front of
the map is a table of locations as the compiler gives them, with strings told by their address,
which is searched without the lock. A site keeps its states, one for each type, in a few slots that
are searched without the lock too, and in a map when the slots are taken.

Each load and each store of a shared variable is a step, and so is taking or releasing the lock;
only what is read and written under the lock alone is done in one step. A type stores its state
before it is published, and is read in the opposite order, so the memory order of the source lets
the steps be taken as interleaved. The strings of a location are constant. A site is told by its
place in the order of insertion, and a constructed state by its place in the order of construction.

## Main definitions

* `Platform` — strings, types and hash values
* `Location`, `SiteKey`, `SiteAlias` — locations by address and by content
* `Memory` — the registry
* `GetPhase`, `getNext` — `SiteRegistry::Get`
* `StatePhase`, `stateNext` — `SiteImpl::State` and `SiteImpl::Publish`
-/

namespace NgLog

namespace Sites

/-! ### Locations -/

/-- A `const char*`. -/
abbrev Pointer : Type := ℕ

/-- A `std::source_location`. -/
structure Location where
  fileName : Pointer
  functionName : Pointer
  line : ℕ
  column : ℕ
deriving DecidableEq

/-- What the registry is given by the program and by the standard library: the strings at their
addresses, the types of `std::type_info` objects, and `std::hash` as a `std::size_t` of some
width. -/
structure Platform (TypeInfo T : Type) where
  chars : Pointer → CString
  typeOf : TypeInfo → T
  width : ℕ
  hashPointer : Pointer → BitVec width
  hashNumber : ℕ → BitVec width

/-- `SiteKey`, and the strings of a `SiteKeyView`. -/
structure SiteKey where
  file : List Byte
  function : List Byte
  line : ℕ
  column : ℕ

/-- `SiteKeyEqual`. -/
def siteKeyEqual (l r : SiteKey) : Bool :=
  l.file == r.file && l.function == r.function && l.line == r.line && l.column == r.column

/-- `SiteAlias`, with the number of its site. -/
structure SiteAlias where
  file : Pointer
  function : Pointer
  line : ℕ
  column : ℕ
  site : ℕ

/-- `SiteAlias::Matches`. -/
def SiteAlias.matchesLocation (siteAlias : SiteAlias) (location : Location) : Bool :=
  siteAlias.file == location.fileName && siteAlias.function == location.functionName &&
    siteAlias.line == location.line && siteAlias.column == location.column

/-- `kStateSlots`. -/
def kStateSlots : ℕ := 4

/-- `kAliasSlots`. -/
def kAliasSlots : ℕ := 4096

/-- `kMaxAliasProbes`. -/
def kMaxAliasProbes : ℕ := 64

namespace Platform

variable {TypeInfo T : Type} (p : Platform TypeInfo T)

/-- The `SiteKeyView` of a location. -/
def key (location : Location) : SiteKey :=
  ⟨(p.chars location.fileName).text, (p.chars location.functionName).text, location.line,
    location.column⟩

/-- `SiteKeyHash::Combine`. -/
def combine (seed value : BitVec p.width) : BitVec p.width :=
  seed ^^^ (value + BitVec.ofNat p.width 0x9e3779b9 + (seed <<< 6) + (seed >>> 2))

/-- `SiteRegistry::Hash`. -/
def hash (location : Location) : BitVec p.width :=
  let seed := p.hashPointer location.fileName
  let seed := p.combine seed (p.hashPointer location.functionName)
  let seed := p.combine seed (p.hashNumber location.line)
  p.combine seed (p.hashNumber location.column)

/-- The slot of a probe. -/
def aliasSlot (location : Location) (i : ℕ) : ℕ :=
  (p.hash location + BitVec.ofNat p.width i).toNat % kAliasSlots

end Platform

/-! ### The registry -/

/-- A constructed state. -/
abbrev Object : Type := ℕ

/-- `SiteImpl::Slot`. -/
structure Slot (TypeInfo : Type) where
  type : Option TypeInfo
  state : Option Object

/-- `SiteImpl`. -/
structure SiteImpl (TypeInfo T : Type) where
  slots : ℕ → Slot TypeInfo
  overflow : T → Option Object

/-- `SiteRegistry` with its sites, who holds the lock, which call has constructed each state, and
the states that have been destroyed. -/
structure Memory (TypeInfo T Call : Type) where
  mutex : Option Call
  sites : List SiteKey
  aliases : ℕ → Option SiteAlias
  impls : ℕ → SiteImpl TypeInfo T
  constructions : List Call
  destroyed : List Object

/-- The registry before the first call. -/
def Memory.empty {TypeInfo T Call : Type} : Memory TypeInfo T Call :=
  { mutex := none
    sites := []
    aliases := fun _ => none
    impls := fun _ => ⟨fun _ => ⟨none, none⟩, fun _ => none⟩
    constructions := []
    destroyed := [] }

/-! ### The code -/

/-- Where a call of `SiteRegistry::Get` is. -/
inductive GetPhase
  /-- In the loop without the lock. -/
  | probing (location : Location) (i : ℕ)
  | locking (location : Location)
  | finding (location : Location)
  /-- In the loop under the lock. -/
  | linking (location : Location) (site i : ℕ)
  | storing (location : Location) (site i : ℕ)
  | unlocking (location : Location) (site : ℕ)
  | returned (location : Location) (site : ℕ)

/-- Where a call of `SiteImpl::State` is. -/
inductive StatePhase (TypeInfo : Type)
  /-- In the loop without the lock. -/
  | scanning (site : ℕ) (type : TypeInfo) (i : ℕ)
  | loading (site : ℕ) (type : TypeInfo) (i : ℕ)
  | constructing (site : ℕ) (type : TypeInfo)
  | locking (site : ℕ) (type : TypeInfo) (constructed : Object)
  /-- In the loop of `Publish`. -/
  | publishing (site : ℕ) (type : TypeInfo) (constructed : Object) (i : ℕ)
  | filling (site : ℕ) (type : TypeInfo) (constructed : Object) (i : ℕ)
  | announcing (site : ℕ) (type : TypeInfo) (constructed : Object) (i : ℕ)
  | overflowing (site : ℕ) (type : TypeInfo) (constructed : Object)
  | unlocking (site : ℕ) (type : TypeInfo) (constructed : Object) (state : Option Object)
  | deciding (site : ℕ) (type : TypeInfo) (constructed : Object) (state : Option Object)
  | returned (site : ℕ) (type : TypeInfo) (constructed : Option Object) (state : Option Object)

section Code

variable {TypeInfo T Call : Type}

namespace Memory

/-- `FindOrInsert`. -/
def findOrInsert (m : Memory TypeInfo T Call) (key : SiteKey) : Memory TypeInfo T Call × ℕ :=
  match m.sites.findIdx? (siteKeyEqual key) with
  | some site => (m, site)
  | none => ({ m with sites := m.sites ++ [key] }, m.sites.length)

/-- A slot of a site. -/
def slot (m : Memory TypeInfo T Call) (site i : ℕ) : Slot TypeInfo := (m.impls site).slots i

/-- Writes a slot of a site. -/
def setSlot (m : Memory TypeInfo T Call) (site i : ℕ) (slot : Slot TypeInfo) :
    Memory TypeInfo T Call :=
  let impl := m.impls site
  { m with
    impls := Function.update m.impls site ⟨Function.update impl.slots i slot, impl.overflow⟩ }

/-- Writes an entry of `overflow_`. -/
def setOverflow [DecidableEq T] (m : Memory TypeInfo T Call) (site : ℕ) (type : T)
    (state : Object) : Memory TypeInfo T Call :=
  let impl := m.impls site
  { m with
    impls := Function.update m.impls site
      ⟨impl.slots, Function.update impl.overflow type (some state)⟩ }

end Memory

variable (p : Platform TypeInfo T) (call : Call) (m : Memory TypeInfo T Call)

/-- A step of `SiteRegistry::Get`. -/
def getNext : GetPhase → Option (Memory TypeInfo T Call × GetPhase)
  | .probing location i =>
    if i = kMaxAliasProbes then some (m, .locking location)
    else
      match m.aliases (p.aliasSlot location i) with
      | none => some (m, .locking location)
      | some siteAlias =>
        if siteAlias.matchesLocation location then some (m, .returned location siteAlias.site)
        else some (m, .probing location (i + 1))
  | .locking location =>
    if m.mutex.isSome then none else some ({ m with mutex := some call }, .finding location)
  | .finding location =>
    let (m, site) := m.findOrInsert (p.key location)
    some (m, .linking location site 0)
  | .linking location site i =>
    if i = kMaxAliasProbes then some (m, .unlocking location site)
    else
      match m.aliases (p.aliasSlot location i) with
      | none => some (m, .storing location site i)
      | some siteAlias =>
        if siteAlias.matchesLocation location then some (m, .unlocking location site)
        else some (m, .linking location site (i + 1))
  | .storing location site i =>
    let siteAlias : SiteAlias :=
      ⟨location.fileName, location.functionName, location.line, location.column, site⟩
    some ({ m with
      aliases := Function.update m.aliases (p.aliasSlot location i) (some siteAlias) },
      .unlocking location site)
  | .unlocking location site => some ({ m with mutex := none }, .returned location site)
  | .returned .. => none

/-- A step of `SiteImpl::State`. -/
def stateNext [DecidableEq T] :
    StatePhase TypeInfo → Option (Memory TypeInfo T Call × StatePhase TypeInfo)
  | .scanning site type i =>
    if i = kStateSlots then some (m, .constructing site type)
    else
      match (m.slot site i).type with
      | none => some (m, .constructing site type)
      | some slotType =>
        if p.typeOf slotType = p.typeOf type then some (m, .loading site type i)
        else some (m, .scanning site type (i + 1))
  | .loading site type i => some (m, .returned site type none (m.slot site i).state)
  | .constructing site type =>
    some ({ m with constructions := m.constructions ++ [call] },
      .locking site type m.constructions.length)
  | .locking site type constructed =>
    if m.mutex.isSome then none
    else some ({ m with mutex := some call }, .publishing site type constructed 0)
  | .publishing site type constructed i =>
    if i = kStateSlots then some (m, .overflowing site type constructed)
    else
      match (m.slot site i).type with
      | none => some (m, .filling site type constructed i)
      | some slotType =>
        if p.typeOf slotType = p.typeOf type then
          some (m, .unlocking site type constructed (m.slot site i).state)
        else some (m, .publishing site type constructed (i + 1))
  | .filling site type constructed i =>
    some (m.setSlot site i ⟨(m.slot site i).type, some constructed⟩,
      .announcing site type constructed i)
  | .announcing site type constructed i =>
    some (m.setSlot site i ⟨some type, (m.slot site i).state⟩,
      .unlocking site type constructed (m.slot site i).state)
  | .overflowing site type constructed =>
    match (m.impls site).overflow (p.typeOf type) with
    | none =>
      some (m.setOverflow site (p.typeOf type) constructed,
        .unlocking site type constructed (some constructed))
    | some state => some (m, .unlocking site type constructed (some state))
  | .unlocking site type constructed state =>
    some ({ m with mutex := none }, .deciding site type constructed state)
  | .deciding site type constructed state =>
    if state = some constructed then some (m, .returned site type (some constructed) state)
    else
      some ({ m with destroyed := m.destroyed ++ [constructed] },
        .returned site type (some constructed) state)
  | .returned .. => none

end Code

/-! ### Calls -/

/-- A call. -/
inductive Request (TypeInfo : Type)
  | get (location : Location)
  | state (site : ℕ) (type : TypeInfo)

/-- Where a call is. -/
inductive Phase (TypeInfo : Type)
  | get (phase : GetPhase)
  | state (phase : StatePhase TypeInfo)

/-- The calls of the registry and of its sites. -/
def code {TypeInfo T Call : Type} [DecidableEq T] (p : Platform TypeInfo T) :
    Interference.Code Call (Request TypeInfo) (Memory TypeInfo T Call) (Phase TypeInfo) where
  enter m
    | .get location => some (.get (.probing location 0))
    | .state site type =>
      if site < m.sites.length then some (.state (.scanning site type 0)) else none
  next call m
    | .get phase => (getNext p call m phase).map fun result => (result.1, .get result.2)
    | .state phase => (stateNext p call m phase).map fun result => (result.1, .state result.2)

end Sites

end NgLog
