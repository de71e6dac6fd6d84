import NgLog.Support.Bytes
import NgLog.Support.LinkedList
import NgLog.Support.Transition

/-!
# Verbose logging sites

A `VLOG` site caches a pointer to the level that controls it: the level of the first entry of
`vmodule_list` whose pattern matches the base name of the site's file, or none if the default level
does. Entries are never removed, but `SetVLOGLevel` may add one. For this the sites that use the
default are kept on an intrusive list, through which `SetVLOGLevel` goes to redirect those that the
new pattern matches. A site is cached only once the `--vmodule` flag has been parsed, so the
parser's entries come before every cached site.

## Main definitions

* `safeFNMatch`, `baseName`, `parseVModule` — patterns, names, and the value of `--vmodule`
* `State`, `setVLOGLevel`, `initializeVLOG3` — the entries and the sites, and the two functions
* `step` — one call
* `Invariant` — what relates the sites, the list and the entries

## Main results

* `setVLOGLevel_spec`, `initializeVLOG3_spec` — the calls keep the invariant
* `cached_sites_correct` — every site after every sequence of calls
-/

namespace NgLog

namespace VLog

open LinkedList (Links removeLoop nodes)
open Transition (run)

/-! ### Patterns and names -/

/-- The loop of `SafeFNMatch_` over the rest of the string after a star. -/
def matchesSomeRest (matchesRest : List Byte → Bool) : List Byte → Bool
  | [] => false
  | c :: str => matchesRest (c :: str) || matchesSomeRest matchesRest str

/-- `'*'`. -/
def star : Byte := 42

/-- `'?'`. -/
def questionMark : Byte := 63

/-- `SafeFNMatch_`. -/
def safeFNMatch : (pattern str : List Byte) → Bool
  | [] => fun str => str.isEmpty
  | p :: pattern => fun str =>
    match str with
    | [] => pattern.isEmpty && p == star
    | c :: rest =>
      if p = c ∨ p = questionMark then safeFNMatch pattern rest
      else if p = star then
        if pattern.isEmpty then true else matchesSomeRest (safeFNMatch pattern) (c :: rest)
      else false

/-- What follows the last `c`, as `strrchr` finds it. -/
def afterLast (c : Byte) (s : List Byte) : Option (List Byte) :=
  if c ∈ s then some (s.reverse.takeWhile (· ≠ c)).reverse else none

/-- The base name of a file in `InitializeVLOG3`, on Windows or elsewhere. -/
def baseName (windows : Bool) (fname : CString) : List Byte :=
  let base := match afterLast 47 fname.text with
    | some base => base
    | none => if windows then (afterLast 92 fname.text).getD fname.text else fname.text
  let base := base.takeWhile (· ≠ 46)
  if (bytes "-inl").isSuffixOf base then base.take (base.length - 4) else base

/-- `isspace` in the "C" locale. -/
def isSpace (c : Byte) : Bool := c = 32 ∨ 9 ≤ c ∧ c ≤ 13

/-- `isdigit`. -/
def isDigit (c : Byte) : Bool := 48 ≤ c ∧ c ≤ 57

/-- `%d` of `sscanf`. A value out of range, which is undefined, wraps around. -/
def scanInt (text : List Byte) : Option Int32 :=
  let text := text.dropWhile isSpace
  let negative := text.head? = some 45
  let text := if negative ∨ text.head? = some 43 then text.tail else text
  let digits := text.takeWhile isDigit
  if digits.isEmpty then none
  else
    let magnitude : Int := digits.foldl (fun value c => value * 10 + (c.toNat - 48)) 0
    some (Int32.ofInt (if negative then -magnitude else magnitude))

/-- The entries that `VLOG2Initializer` reads from the value of `--vmodule`. -/
def parseVModule (vmodule : List Byte) : List (List Byte × Int32) :=
  match _hsep : vmodule.dropWhile (· ≠ 61) with
  | [] => []
  | _ :: value =>
    let entry := ((scanInt value).map fun level => (vmodule.takeWhile (· ≠ 61), level)).toList
    match _hcomma : value.dropWhile (· ≠ 44) with
    | [] => entry
    | _ :: rest => entry ++ parseVModule rest
termination_by vmodule.length
decreasing_by
  have hle := (List.dropWhile_sublist (l := vmodule) (· ≠ 61)).length_le
  have hle' := (List.dropWhile_sublist (l := value) (· ≠ 44)).length_le
  rw [_hsep, List.length_cons] at hle
  rw [_hcomma, List.length_cons] at hle'
  omega

/-! ### Entries and sites -/

/-- `VModuleInfo`, at an address that is a number here. -/
structure VModuleInfo where
  address : ℕ
  modulePattern : List Byte
  vlogLevel : Int32

/-- `SiteFlag`, without the pointer to the next site. The level points to that of an entry; the
default level is a flag, by its number. -/
structure SiteFlag where
  level : Option ℕ := none
  defaultLevel : Option ℕ := none
  initialized : Bool := false
  baseName : Option (List Byte) := none

/-- The global variables of the file and the sites. -/
structure State (Site : Type) where
  vmoduleList : List VModuleInfo
  initedVModule : Bool
  cachedSiteList : Links Site
  sites : Site → SiteFlag
  /-- The address of the next entry. -/
  nextInfo : ℕ
  /-- How many sites have been put on the list. -/
  cached : ℕ
  /-- The base name for which a site has been initialized. -/
  baseNames : Site → List Byte

/-- The values of the flags during a call. -/
structure FlagValues where
  /-- `FLAGS_vmodule`. -/
  vmodule : List Byte
  /-- `FLAGS_v`. -/
  v : Int32
  /-- A flag by its number. -/
  level : ℕ → Int32

variable {Site : Type}

namespace State

/-- Before the first call; static storage is zero. -/
def init : State Site :=
  { vmoduleList := [], initedVModule := false, cachedSiteList := ⟨none, fun _ => none⟩,
    sites := fun _ => {}, nextInfo := 0, cached := 0, baseNames := fun _ => [] }

/-- The entries of `parseVModule`, at addresses from `address` on. -/
def newInfos (address : ℕ) : List (List Byte × Int32) → List VModuleInfo
  | [] => []
  | (pattern, level) :: entries => ⟨address, pattern, level⟩ :: newInfos (address + 1) entries

/-- `VLOG2Initializer`. The C string ends at the first NUL of the flag's value. -/
def vlog2Initializer (s : State Site) (flags : FlagValues) : State Site :=
  let entries := parseVModule (flags.vmodule.takeWhile (· ≠ 0))
  { s with
    vmoduleList := newInfos s.nextInfo entries ++ s.vmoduleList
    nextInfo := s.nextInfo + entries.length
    initedVModule := true }

/-- The level behind a pointer. -/
def loadLevel (s : State Site) (info : ℕ) : Option Int32 :=
  (s.vmoduleList.find? fun entry => entry.address = info).map VModuleInfo.vlogLevel

end State

/-- The variables of the first loop of `SetVLOGLevel`. -/
structure LevelSearch where
  result : Int32
  found : Bool := false
  foundExact : Bool := false

/-- The first loop of `SetVLOGLevel`. -/
def setLevels (modulePattern : List Byte) (logLevel : Int32) :
    LevelSearch → List VModuleInfo → LevelSearch × List VModuleInfo
  | search, [] => (search, [])
  | search, info :: infos =>
    if info.modulePattern = modulePattern then
      let rest := setLevels modulePattern logLevel
        { result := if search.found then search.result else info.vlogLevel
          found := true, foundExact := true } infos
      (rest.1, { info with vlogLevel := logLevel } :: rest.2)
    else
      let rest := setLevels modulePattern logLevel
        (if !search.found && safeFNMatch info.modulePattern modulePattern then
          { search with result := info.vlogLevel, found := true } else search) infos
      (rest.1, info :: rest.2)

section Calls

variable [DecidableEq Site]

/-- One round of the second loop of `SetVLOGLevel`: whether the site is taken from the list, and the
sites in which it has been redirected if so. -/
def redirect (modulePattern : List Byte) (info : ℕ) (site : Site) (sites : Site → SiteFlag) :
    Option (Bool × (Site → SiteFlag)) :=
  (sites site).baseName.map fun base =>
    if safeFNMatch modulePattern base then
      (true, Function.update sites site { sites site with level := some info })
    else (false, sites)

/-- The part of `SetVLOGLevel` that adds an entry and redirects the sites. -/
def addEntry (s : State Site) (modulePattern : List Byte) (logLevel : Int32) :
    Option (State Site) :=
  let info := s.nextInfo
  (removeLoop (redirect modulePattern info) (s.cached + 1) .head s.cachedSiteList s.sites).map
    fun result =>
      { s with
        vmoduleList := ⟨info, modulePattern, logLevel⟩ :: s.vmoduleList
        nextInfo := info + 1
        cachedSiteList := result.1
        sites := result.2 }

/-- `SetVLOGLevel`, without its `RAW_VLOG`, which is a site of its own. -/
def setVLOGLevel (s : State Site) (flags : FlagValues) (modulePattern : CString)
    (logLevel : Int32) : Option (State Site × Int32) :=
  let s := if s.initedVModule then s else s.vlog2Initializer flags
  let (search, infos) := setLevels modulePattern.text logLevel { result := flags.v } s.vmoduleList
  let s := { s with vmoduleList := infos }
  if search.foundExact then some (s, search.result)
  else (addEntry s modulePattern.text logLevel).map fun s => (s, search.result)

/-- `InitializeVLOG3`. -/
def initializeVLOG3 (s : State Site) (flags : FlagValues) (windows : Bool) (site : Site)
    (levelDefault : ℕ) (fname : CString) (verboseLevel : Int32) : Option (State Site × Bool) :=
  if (s.sites site).initialized then
    match (s.sites site).level with
    | none => (s.sites site).defaultLevel.map fun flag => (s, flags.level flag ≥ verboseLevel)
    | some info => (s.loadLevel info).map fun level => (s, level ≥ verboseLevel)
  else
    let readVModuleFlag := s.initedVModule
    let s := if readVModuleFlag then s else s.vlog2Initializer flags
    let base := baseName windows fname
    let found := s.vmoduleList.find? fun info => safeFNMatch info.modulePattern base
    let result : Bool := match found with
      | none => flags.level levelDefault ≥ verboseLevel
      | some info => info.vlogLevel ≥ verboseLevel
    if readVModuleFlag then
      let siteFlag : SiteFlag := { s.sites site with
        defaultLevel := if found.isNone then some levelDefault else none
        level := found.map VModuleInfo.address
        initialized := true }
      let s := { s with baseNames := Function.update s.baseNames site base }
      if found.isNone ∧ siteFlag.baseName.isNone then
        some ({ s with
          sites := Function.update s.sites site { siteFlag with baseName := some base }
          cachedSiteList := s.cachedSiteList.push site
          cached := s.cached + 1 }, result)
      else some ({ s with sites := Function.update s.sites site siteFlag }, result)
    else some (s, result)

/-- A call, with the values of the flags during it. -/
inductive Action (Site : Type)
  | setVLOGLevel (flags : FlagValues) (modulePattern : CString) (logLevel : Int32)
  | initializeVLOG3 (flags : FlagValues) (windows : Bool) (site : Site) (levelDefault : ℕ)
    (fname : CString) (verboseLevel : Int32)

/-- One call, under the mutex. -/
def step (s : State Site) : Action Site → Option (State Site)
  | .setVLOGLevel flags modulePattern logLevel =>
    (setVLOGLevel s flags modulePattern logLevel).map Prod.fst
  | .initializeVLOG3 flags windows site levelDefault fname verboseLevel =>
    (initializeVLOG3 s flags windows site levelDefault fname verboseLevel).map Prod.fst

end Calls

/-! ### The invariant -/

/-- A site is cached and uses the default level. -/
def UsesDefault (s : State Site) (site : Site) : Prop :=
  (s.sites site).initialized = true ∧ (s.sites site).level = none

/-- The sites on the list are those that use the default, and no entry matches their names; the
level of any other cached site is that of an entry that matches its name. -/
structure Invariant (s : State Site) (listed : List Site) : Prop where
  holds : s.cachedSiteList.Holds listed
  length_le : listed.length ≤ s.cached
  mem_iff : ∀ site, site ∈ listed ↔ UsesDefault s site
  name : ∀ site ∈ listed, (s.sites site).baseName = some (s.baseNames site)
  unmatched : ∀ site ∈ listed, ∀ info ∈ s.vmoduleList,
    safeFNMatch info.modulePattern (s.baseNames site) = false
  matched : ∀ site info, (s.sites site).initialized = true → (s.sites site).level = some info →
    ∃ entry ∈ s.vmoduleList, entry.address = info ∧
      safeFNMatch entry.modulePattern (s.baseNames site) = true
  uninitialized : ∀ site, (s.sites site).initialized = false → (s.sites site).baseName = none
  parsed : s.initedVModule = false → ∀ site, (s.sites site).initialized = false
  addresses : (s.vmoduleList.map VModuleInfo.address).Nodup
  address_lt : ∀ entry ∈ s.vmoduleList, entry.address < s.nextInfo
  defaultLevel : ∀ site ∈ listed, (s.sites site).defaultLevel.isSome

theorem invariant_init : Invariant (State.init : State Site) [] where
  holds := LinkedList.holds_nil
  length_le := Nat.zero_le _
  mem_iff site := by simp [UsesDefault, State.init]
  name := by simp
  unmatched := by simp
  matched site info h := by cases h
  uninitialized _ _ := rfl
  parsed _ _ := rfl
  addresses := List.nodup_nil
  address_lt := by simp [State.init]
  defaultLevel := by simp

/-! ### The entries -/

theorem address_newInfos {address : ℕ} {entries : List (List Byte × Int32)} {info : VModuleInfo}
    (h : info ∈ State.newInfos address entries) :
    address ≤ info.address ∧ info.address < address + entries.length := by
  induction entries generalizing address with
  | nil => cases h
  | cons entry entries ih =>
    rw [List.length_cons]
    rcases List.mem_cons.mp h with rfl | h
    · exact ⟨Nat.le_refl _, by dsimp only; omega⟩
    · have := ih h
      omega

theorem nodup_newInfos (address : ℕ) (entries : List (List Byte × Int32)) :
    ((State.newInfos address entries).map VModuleInfo.address).Nodup := by
  induction entries generalizing address with
  | nil => exact List.nodup_nil
  | cons entry entries ih =>
    refine List.nodup_cons.mpr ⟨fun hmem => ?_, ih (address + 1)⟩
    obtain ⟨info, hinfo, heq⟩ := List.mem_map.mp hmem
    have hle := (address_newInfos hinfo).1
    rw [heq] at hle
    exact Nat.not_succ_le_self address hle

variable {s : State Site} {listed : List Site}

/-- As long as the flag has not been parsed, no site is on the list. -/
theorem Invariant.listed_eq_nil (h : Invariant s listed) (hinited : s.initedVModule = false) :
    listed = [] := by
  refine List.eq_nil_iff_forall_not_mem.mpr fun site hsite => ?_
  have hinitialized := ((h.mem_iff site).mp hsite).1
  rw [h.parsed hinited site] at hinitialized
  cases hinitialized

/-- The flag is parsed before a site is cached. -/
theorem invariant_vlog2Initializer (h : Invariant s listed) (hinited : s.initedVModule = false)
    (flags : FlagValues) : Invariant (s.vlog2Initializer flags) listed := by
  obtain rfl := h.listed_eq_nil hinited
  refine { h with
    unmatched := by simp
    matched := fun site info hinitialized => ?_
    parsed := fun hparsed => by cases hparsed
    addresses := ?_
    address_lt := ?_ }
  · have huninitialized := h.parsed hinited site
    rw [show (s.sites site).initialized = true from hinitialized] at huninitialized
    cases huninitialized
  · change ((State.newInfos _ _ ++ s.vmoduleList).map VModuleInfo.address).Nodup
    rw [List.map_append, List.nodup_append]
    refine ⟨nodup_newInfos _ _, h.addresses, fun a ha b hb => ?_⟩
    obtain ⟨info, hinfo, rfl⟩ := List.mem_map.mp ha
    obtain ⟨entry, hentry, rfl⟩ := List.mem_map.mp hb
    have := (address_newInfos hinfo).1
    have := h.address_lt entry hentry
    omega
  · intro entry hentry
    change entry.address < s.nextInfo + _
    rcases List.mem_append.mp hentry with hentry | hentry
    · exact (address_newInfos hentry).2
    · exact Nat.lt_add_right _ (h.address_lt entry hentry)

/-- The first loop of `SetVLOGLevel` changes nothing but levels. -/
theorem setLevels_map (modulePattern : List Byte) (logLevel : Int32) (search : LevelSearch)
    (infos : List VModuleInfo) :
    (setLevels modulePattern logLevel search infos).2.map
        (fun info => (info.address, info.modulePattern)) =
      infos.map fun info => (info.address, info.modulePattern) := by
  induction infos generalizing search with
  | nil => rfl
  | cons info infos ih =>
    rw [setLevels]
    by_cases hpattern : info.modulePattern = modulePattern
    · rw [if_pos hpattern]
      exact congrArg ((info.address, info.modulePattern) :: ·) (ih _)
    · rw [if_neg hpattern]
      exact congrArg ((info.address, info.modulePattern) :: ·) (ih _)

/-- The invariant is about the patterns and addresses of the entries, not about their levels. -/
theorem invariant_of_map_eq (h : Invariant s listed) {infos : List VModuleInfo}
    (hmap : infos.map (fun info => (info.address, info.modulePattern)) =
      s.vmoduleList.map fun info => (info.address, info.modulePattern)) :
    Invariant { s with vmoduleList := infos } listed := by
  have hold : ∀ info ∈ infos, ∃ entry ∈ s.vmoduleList,
      entry.address = info.address ∧ entry.modulePattern = info.modulePattern := by
    intro info hinfo
    have hmem : (info.address, info.modulePattern) ∈
        s.vmoduleList.map fun info => (info.address, info.modulePattern) :=
      hmap ▸ List.mem_map.mpr ⟨info, hinfo, rfl⟩
    obtain ⟨entry, hentry, heq⟩ := List.mem_map.mp hmem
    exact ⟨entry, hentry, (Prod.mk.inj heq).1, (Prod.mk.inj heq).2⟩
  have hnew : ∀ entry ∈ s.vmoduleList, ∃ info ∈ infos,
      info.address = entry.address ∧ info.modulePattern = entry.modulePattern := by
    intro entry hentry
    have hmem : (entry.address, entry.modulePattern) ∈
        infos.map fun info => (info.address, info.modulePattern) :=
      hmap ▸ List.mem_map.mpr ⟨entry, hentry, rfl⟩
    obtain ⟨info, hinfo, heq⟩ := List.mem_map.mp hmem
    exact ⟨info, hinfo, (Prod.mk.inj heq).1, (Prod.mk.inj heq).2⟩
  have haddresses : infos.map VModuleInfo.address = s.vmoduleList.map VModuleInfo.address := by
    have hfst := congrArg (List.map Prod.fst) hmap
    rwa [List.map_map, List.map_map] at hfst
  refine { h with
    unmatched := fun site hsite info hinfo => ?_
    matched := fun site info hinitialized hlevel => ?_
    addresses := haddresses ▸ h.addresses
    address_lt := fun info hinfo => ?_ }
  · obtain ⟨entry, hentry, -, hpattern⟩ := hold info hinfo
    exact hpattern ▸ h.unmatched site hsite entry hentry
  · obtain ⟨entry, hentry, haddress, hmatch⟩ := h.matched site info hinitialized hlevel
    obtain ⟨new, hinfo, haddress', hpattern⟩ := hnew entry hentry
    exact ⟨new, hinfo, haddress'.trans haddress, hpattern ▸ hmatch⟩
  · obtain ⟨entry, hentry, haddress, -⟩ := hold info hinfo
    exact haddress ▸ h.address_lt entry hentry

/-! ### One call -/

section Specifications

variable [DecidableEq Site]

/-- The second loop of `SetVLOGLevel` redirects the sites on the list that the pattern matches, and
takes them from the list. -/
theorem redirect_spec (h : Invariant s listed) (modulePattern : List Byte) (info : ℕ) :
    ∃ links,
      removeLoop (redirect modulePattern info) (s.cached + 1) .head s.cachedSiteList s.sites =
        some (links, fun site => if site ∈ listed ∧ safeFNMatch modulePattern (s.baseNames site)
          then { s.sites site with level := some info } else s.sites site) ∧
      links.Holds (listed.filter fun site => !safeFNMatch modulePattern (s.baseNames site)) := by
  let I (sites : Site → SiteFlag) (rest : List Site) : Prop :=
    rest.Nodup ∧ rest ⊆ listed ∧ ∀ site, sites site =
      if (site ∈ listed ∧ site ∉ rest) ∧ safeFNMatch modulePattern (s.baseNames site)
      then { s.sites site with level := some info } else s.sites site
  have hvisit : ∀ site rest sites, I sites (site :: rest) →
      ∃ sites', redirect modulePattern info site sites =
        some (safeFNMatch modulePattern (s.baseNames site), sites') ∧ I sites' rest := by
    rintro site rest sites ⟨hnodup, hsubset, hsites⟩
    obtain ⟨hnotin, hnodup⟩ := List.nodup_cons.mp hnodup
    have hlisted : site ∈ listed := hsubset (List.mem_cons_self ..)
    have hsite : sites site = s.sites site := by simp [hsites]
    have hrest : rest ⊆ listed := fun other hother => hsubset (List.mem_cons_of_mem site hother)
    rw [redirect, hsite, h.name site hlisted, Option.map_some]
    cases hmatch : safeFNMatch modulePattern (s.baseNames site) with
    | true =>
      refine ⟨_, rfl, hnodup, hrest, fun other => ?_⟩
      by_cases hother : other = site
      · subst hother
        rw [Function.update_self, if_pos ⟨⟨hlisted, hnotin⟩, hmatch⟩]
      · rw [Function.update_of_ne hother, hsites]
        simp [hother]
    | false =>
      refine ⟨sites, rfl, hnodup, hrest, fun other => ?_⟩
      by_cases hother : other = site
      · subst hother
        rw [hsite, if_neg (by simp [hmatch])]
      · rw [hsites]
        simp [hother]
  have hstart : I s.sites listed := ⟨h.holds.nodup, fun _ hmem => hmem, fun site => by simp⟩
  obtain ⟨links, sites, hloop, hholds, ⟨-, -, hsites⟩, -⟩ :=
    LinkedList.removeLoop_spec hvisit h.holds hstart (Nat.lt_succ_of_le h.length_le)
  refine ⟨links, ?_, hholds⟩
  rw [hloop]
  congr 2
  funext site
  simpa using hsites site

/-- The sites that the new entry's pattern matches are redirected to it; the others keep what they
point to, and the pattern does not match those that stay on the list. -/
theorem addEntry_spec (h : Invariant s listed) (modulePattern : List Byte) (logLevel : Int32) :
    ∃ s' listed', addEntry s modulePattern logLevel = some s' ∧ Invariant s' listed' := by
  obtain ⟨links, hloop, hholds⟩ := redirect_spec h modulePattern s.nextInfo
  let redirected (site : Site) : Prop :=
    site ∈ listed ∧ safeFNMatch modulePattern (s.baseNames site) = true
  let s' : State Site :=
    { s with
      vmoduleList := ⟨s.nextInfo, modulePattern, logLevel⟩ :: s.vmoduleList
      nextInfo := s.nextInfo + 1
      cachedSiteList := links
      sites := fun site => if site ∈ listed ∧ safeFNMatch modulePattern (s.baseNames site) then
        { s.sites site with level := some s.nextInfo } else s.sites site }
  have hstays : ∀ site, site ∈ (listed.filter fun site =>
      !safeFNMatch modulePattern (s.baseNames site)) ↔ site ∈ listed ∧ ¬redirected site := by
    intro site
    rw [List.mem_filter, Bool.not_eq_true']
    refine and_congr_right fun hlisted => ⟨fun hno hyes => ?_, fun hnot => ?_⟩
    · rw [hyes.2] at hno
      cases hno
    · exact eq_false_of_ne_true fun hyes => hnot ⟨hlisted, hyes⟩
  have hyes : ∀ site, redirected site → s'.sites site =
      { s.sites site with level := some s.nextInfo } := fun site hsite => if_pos hsite
  have hno : ∀ site, ¬redirected site → s'.sites site = s.sites site :=
    fun site hsite => if_neg hsite
  have hcases : ∀ site, (s'.sites site).initialized = (s.sites site).initialized ∧
      (s'.sites site).baseName = (s.sites site).baseName := by
    intro site
    by_cases hsite : redirected site
    · rw [hyes site hsite]
      exact ⟨rfl, rfl⟩
    · rw [hno site hsite]
      exact ⟨rfl, rfl⟩
  refine ⟨s', listed.filter fun site => !safeFNMatch modulePattern (s.baseNames site),
    Option.map_eq_some_iff.mpr ⟨_, hloop, rfl⟩, ?_⟩
  constructor
  case holds => exact hholds
  case length_le => exact Nat.le_trans (List.length_filter_le ..) h.length_le
  case mem_iff =>
    intro site
    rw [hstays, UsesDefault]
    by_cases hsite : redirected site
    · rw [hyes site hsite]
      exact iff_of_false (fun hmem => hmem.2 hsite) (by simp)
    · rw [hno site hsite, h.mem_iff site]
      exact and_iff_left hsite
  case name =>
    intro site hmem
    obtain ⟨hlisted, hsite⟩ := (hstays site).mp hmem
    rw [hno site hsite]
    exact h.name site hlisted
  case unmatched =>
    intro site hmem entry hentry
    obtain ⟨hlisted, hsite⟩ := (hstays site).mp hmem
    rcases List.mem_cons.mp hentry with rfl | hentry
    · exact eq_false_of_ne_true fun hmatch => hsite ⟨hlisted, hmatch⟩
    · exact h.unmatched site hlisted entry hentry
  case matched =>
    intro site info hinitialized hlevel
    by_cases hsite : redirected site
    · rw [hyes site hsite] at hlevel
      exact ⟨_, List.mem_cons_self .., Option.some.inj hlevel, hsite.2⟩
    · rw [hno site hsite] at hinitialized hlevel
      obtain ⟨entry, hentry, haddress, hmatch⟩ := h.matched site info hinitialized hlevel
      exact ⟨entry, List.mem_cons_of_mem _ hentry, haddress, hmatch⟩
  case uninitialized =>
    intro site huninitialized
    rw [(hcases site).1] at huninitialized
    rw [(hcases site).2]
    exact h.uninitialized site huninitialized
  case parsed =>
    intro hparsed site
    rw [(hcases site).1]
    exact h.parsed hparsed site
  case addresses =>
    refine List.nodup_cons.mpr ⟨fun hmem => ?_, h.addresses⟩
    obtain ⟨entry, hentry, haddress⟩ := List.mem_map.mp hmem
    exact absurd (h.address_lt entry hentry) (haddress ▸ Nat.lt_irrefl _)
  case address_lt =>
    intro entry hentry
    rcases List.mem_cons.mp hentry with rfl | hentry
    · exact Nat.lt_succ_self _
    · exact Nat.lt_succ_of_lt (h.address_lt entry hentry)
  case defaultLevel =>
    intro site hmem
    obtain ⟨hlisted, hsite⟩ := (hstays site).mp hmem
    rw [hno site hsite]
    exact h.defaultLevel site hlisted

end Specifications

/-- The parser has run, if it had not before. -/
theorem invariant_parsed (h : Invariant s listed) (flags : FlagValues) :
    Invariant (if s.initedVModule then s else s.vlog2Initializer flags) listed := by
  cases hinited : s.initedVModule with
  | true => exact h
  | false => exact invariant_vlog2Initializer h hinited flags

theorem setVLOGLevel_spec [DecidableEq Site] (h : Invariant s listed) (flags : FlagValues)
    (modulePattern : CString) (logLevel : Int32) :
    ∃ s' result listed', setVLOGLevel s flags modulePattern logLevel = some (s', result) ∧
      Invariant s' listed' := by
  have hparsed := invariant_parsed h flags
  rw [setVLOGLevel]
  generalize (if s.initedVModule then s else s.vlog2Initializer flags) = s₁ at hparsed ⊢
  have hmap := setLevels_map modulePattern.text logLevel { result := flags.v } s₁.vmoduleList
  generalize setLevels modulePattern.text logLevel { result := flags.v } s₁.vmoduleList = levels
    at hmap ⊢
  obtain ⟨search, infos⟩ := levels
  have h₂ := invariant_of_map_eq hparsed hmap
  by_cases hexact : search.foundExact = true
  · exact ⟨_, _, listed, if_pos hexact, h₂⟩
  · obtain ⟨s', listed', hadd, h'⟩ := addEntry_spec h₂ modulePattern.text logLevel
    exact ⟨s', search.result, listed',
      (if_neg hexact).trans (Option.map_eq_some_iff.mpr ⟨s', hadd, rfl⟩), h'⟩

/-- What a pointer to a level leads to. -/
theorem Invariant.loadLevel (h : Invariant s listed) {site : Site} {info : ℕ}
    (hinitialized : (s.sites site).initialized = true) (hlevel : (s.sites site).level = some info) :
    ∃ level, s.loadLevel info = some level := by
  obtain ⟨entry, hentry, haddress, -⟩ := h.matched site info hinitialized hlevel
  have hsome : (s.vmoduleList.find? fun entry => entry.address = info).isSome = true := by
    rw [List.find?_isSome]
    exact ⟨entry, hentry, decide_eq_true haddress⟩
  obtain ⟨found, hfound⟩ := Option.isSome_iff_exists.mp hsome
  exact ⟨found.vlogLevel, by rw [State.loadLevel, hfound, Option.map_some]⟩

/-- A site that is not cached is not on the list. -/
theorem Invariant.notMem (h : Invariant s listed) {site : Site}
    (hsite : (s.sites site).initialized = false) : site ∉ listed := by
  intro hmem
  have hinitialized := ((h.mem_iff site).mp hmem).1
  rw [hsite] at hinitialized
  cases hinitialized

section Caching

variable [DecidableEq Site]

/-- A site is cached that was not: it goes on the list exactly if it uses the default, and then no
entry matches it; otherwise it points to the level of an entry that does. -/
theorem Invariant.cache (h : Invariant s listed) {site : Site}
    (hsite : (s.sites site).initialized = false) (hinited : s.initedVModule = true)
    {base : List Byte} {flag : SiteFlag} (hflag : flag.initialized = true)
    (hdefault : flag.level = none → flag.baseName = some base ∧ flag.defaultLevel.isSome ∧
      ∀ info ∈ s.vmoduleList, safeFNMatch info.modulePattern base = false)
    (hentry : ∀ info, flag.level = some info → ∃ entry ∈ s.vmoduleList, entry.address = info ∧
      safeFNMatch entry.modulePattern base = true)
    {listed' : List Site} {links : LinkedList.Links Site} {cached : ℕ}
    (hholds : links.Holds listed') (hlength : listed'.length ≤ cached)
    (hlisted : ∀ other, other ∈ listed' ↔ other = site ∧ flag.level = none ∨ other ∈ listed) :
    Invariant { s with
      baseNames := Function.update s.baseNames site base
      sites := Function.update s.sites site flag
      cachedSiteList := links
      cached := cached } listed' := by
  have hnot := h.notMem hsite
  have hnew : site ∈ listed' → flag.level = none := fun hmem =>
    ((hlisted site).mp hmem).elim And.right fun hmem => absurd hmem hnot
  have hold : ∀ other ∈ listed', other ≠ site → other ∈ listed := fun other hmem hne =>
    ((hlisted other).mp hmem).resolve_left fun heq => hne heq.1
  constructor
  case holds => exact hholds
  case length_le => exact hlength
  case mem_iff =>
    intro other
    rw [hlisted other]
    by_cases heq : other = site
    · subst heq
      simp [UsesDefault, hnot, hflag]
    · simpa [UsesDefault, heq] using h.mem_iff other
  case name =>
    intro other hmem
    by_cases heq : other = site
    · subst heq
      simpa using (hdefault (hnew hmem)).1
    · simpa [heq] using h.name other (hold other hmem heq)
  case unmatched =>
    intro other hmem
    by_cases heq : other = site
    · subst heq
      simpa using (hdefault (hnew hmem)).2.2
    · simpa [heq] using h.unmatched other (hold other hmem heq)
  case matched =>
    intro other info hinitialized hlevel
    by_cases heq : other = site
    · subst heq
      simp only [Function.update_self] at hlevel ⊢
      exact hentry info hlevel
    · simp only [Function.update_of_ne heq] at hinitialized hlevel ⊢
      exact h.matched other info hinitialized hlevel
  case uninitialized =>
    intro other huninitialized
    by_cases heq : other = site
    · subst heq
      simp [hflag] at huninitialized
    · simp only [Function.update_of_ne heq] at huninitialized ⊢
      exact h.uninitialized other huninitialized
  case parsed =>
    intro hparsed
    rw [show s.initedVModule = false from hparsed] at hinited
    cases hinited
  case addresses => exact h.addresses
  case address_lt => exact h.address_lt
  case defaultLevel =>
    intro other hmem
    by_cases heq : other = site
    · subst heq
      simpa using (hdefault (hnew hmem)).2.1
    · simpa [heq] using h.defaultLevel other (hold other hmem heq)

/-- A site is cached that no entry matches. -/
theorem invariant_cacheDefault (h : Invariant s listed) {site : Site}
    (hsite : (s.sites site).initialized = false) (hinited : s.initedVModule = true)
    (levelDefault : ℕ) {base : List Byte}
    (hunmatched : ∀ info ∈ s.vmoduleList, safeFNMatch info.modulePattern base = false) :
    Invariant { s with
      baseNames := Function.update s.baseNames site base
      sites := Function.update s.sites site { s.sites site with
        defaultLevel := some levelDefault, level := none, initialized := true
        baseName := some base }
      cachedSiteList := s.cachedSiteList.push site
      cached := s.cached + 1 } (site :: listed) := by
  refine h.cache hsite hinited rfl (fun _ => ⟨rfl, rfl, hunmatched⟩) (fun _ hlevel => ?_)
    (LinkedList.holds_push h.holds (h.notMem hsite)) (Nat.succ_le_succ h.length_le) (by simp)
  cases hlevel

/-- A site is cached that an entry matches. -/
theorem invariant_cacheEntry (h : Invariant s listed) {site : Site}
    (hsite : (s.sites site).initialized = false) (hinited : s.initedVModule = true)
    {base : List Byte} {entry : VModuleInfo} (hentry : entry ∈ s.vmoduleList)
    (hmatch : safeFNMatch entry.modulePattern base = true) :
    Invariant { s with
      baseNames := Function.update s.baseNames site base
      sites := Function.update s.sites site { s.sites site with
        defaultLevel := none, level := some entry.address, initialized := true } } listed := by
  refine h.cache hsite hinited rfl (fun hlevel => ?_) (fun info hlevel => ?_) h.holds h.length_le
    (by simp)
  · cases hlevel
  · exact ⟨entry, hentry, Option.some.inj hlevel, hmatch⟩

theorem initializeVLOG3_spec (h : Invariant s listed) (flags : FlagValues) (windows : Bool)
    (site : Site) (levelDefault : ℕ) (fname : CString) (verboseLevel : Int32) :
    ∃ s' listed', (initializeVLOG3 s flags windows site levelDefault fname verboseLevel).map
      Prod.fst = some s' ∧ Invariant s' listed' := by
  cases hsite : (s.sites site).initialized with
  | true =>
    refine ⟨s, listed, ?_, h⟩
    cases hlevel : (s.sites site).level with
    | none =>
      have hdefault := h.defaultLevel site ((h.mem_iff site).mpr ⟨hsite, hlevel⟩)
      obtain ⟨flag, hflag⟩ := Option.isSome_iff_exists.mp hdefault
      simp [initializeVLOG3, hsite, hlevel, hflag]
    | some info =>
      obtain ⟨level, hload⟩ := h.loadLevel hsite hlevel
      simp [initializeVLOG3, hsite, hlevel, hload]
  | false =>
    cases hinited : s.initedVModule with
    | false =>
      refine ⟨_, listed, ?_, invariant_vlog2Initializer h hinited flags⟩
      simp [initializeVLOG3, hsite, hinited]
    | true =>
      have hname := h.uninitialized site hsite
      cases hfound : s.vmoduleList.find? fun info =>
          safeFNMatch info.modulePattern (baseName windows fname) with
      | none =>
        have hunmatched : ∀ info ∈ s.vmoduleList,
            safeFNMatch info.modulePattern (baseName windows fname) = false := by
          simpa using List.find?_eq_none.mp hfound
        refine ⟨_, _, ?_, invariant_cacheDefault h hsite hinited levelDefault hunmatched⟩
        simp [initializeVLOG3, hsite, hinited, hfound, hname]
      | some entry =>
        have hmatch : safeFNMatch entry.modulePattern (baseName windows fname) = true := by
          simpa using List.find?_some hfound
        refine ⟨_, _, ?_,
          invariant_cacheEntry h hsite hinited (List.mem_of_find?_eq_some hfound) hmatch⟩
        simp [initializeVLOG3, hsite, hinited, hfound]

/-! ### Every sequence of calls -/

theorem step_spec (h : Invariant s listed) (a : Action Site) :
    ∃ s' listed', step s a = some s' ∧ Invariant s' listed' := by
  cases a with
  | setVLOGLevel flags modulePattern logLevel =>
    obtain ⟨s', result, listed', hcall, h'⟩ := setVLOGLevel_spec h flags modulePattern logLevel
    exact ⟨s', listed', Option.map_eq_some_iff.mpr ⟨_, hcall, rfl⟩, h'⟩
  | initializeVLOG3 flags windows site levelDefault fname verboseLevel =>
    exact initializeVLOG3_spec h flags windows site levelDefault fname verboseLevel

theorem run_spec (actions : List (Action Site)) (h : Invariant s listed) :
    ∃ s' listed', run step s actions = some s' ∧ Invariant s' listed' := by
  have hstep : ∀ (s : State Site) (a : Action Site), True → (∃ listed, Invariant s listed) →
      ∃ s', step s a = some s' ∧ ∃ listed, Invariant s' listed := by
    rintro s a - ⟨listed, hs⟩
    obtain ⟨s', listed', hcall, hs'⟩ := step_spec hs a
    exact ⟨s', hcall, listed', hs'⟩
  have hany : Transition.Along step (fun _ _ => True) s actions := fun _ _ _ _ _ _ => trivial
  obtain ⟨s', hrun, listed', h'⟩ := Transition.run_enabled hstep hany ⟨listed, h⟩
  exact ⟨s', listed', hrun, h'⟩

/-- Every sequence of calls ends, without a null pointer being dereferenced. In the state that it
leads to, a cached site with no level pointer is on the list exactly once, and no entry matches its
base name; the list holds no other sites; and the level pointer of a cached site that has one leads
to an entry that matches its base name, and to no other. -/
theorem cached_sites_correct (actions : List (Action Site)) :
    ∃ (s : State Site) (listed : List Site), run step State.init actions = some s ∧
      nodes s.cachedSiteList.next (s.cached + 1) s.cachedSiteList.head = some listed ∧
      (∀ site, (s.sites site).initialized = true → (s.sites site).level = none →
        listed.count site = 1 ∧
        ∀ info ∈ s.vmoduleList, safeFNMatch info.modulePattern (s.baseNames site) = false) ∧
      (∀ site ∈ listed, (s.sites site).initialized = true ∧ (s.sites site).level = none) ∧
      (∀ site info, (s.sites site).initialized = true → (s.sites site).level = some info →
        ∃ entry ∈ s.vmoduleList, entry.address = info ∧
          safeFNMatch entry.modulePattern (s.baseNames site) = true) ∧
      (s.vmoduleList.map VModuleInfo.address).Nodup := by
  obtain ⟨s, listed, hrun, h⟩ :=
    run_spec actions (invariant_init : Invariant (State.init : State Site) [])
  refine ⟨s, listed, hrun,
    LinkedList.nodes_eq h.holds.segment (Nat.lt_succ_of_le h.length_le), ?_, ?_, h.matched,
    h.addresses⟩
  · intro site hinitialized hlevel
    have hmem := (h.mem_iff site).mpr ⟨hinitialized, hlevel⟩
    exact ⟨List.count_eq_one_of_mem h.holds.nodup hmem, h.unmatched site hmem⟩
  · exact fun site hmem => (h.mem_iff site).mp hmem

end Caching

end VLog

end NgLog
