import NgLog.VLog.Sites

/-!
# Which entry controls a new site

A site that is initialized takes the first entry whose pattern matches its base name. After
`SetVLOGLevel` of a name, that is to be an entry with the new level. If there is no entry of this
very pattern, the call adds one in front of all others. If there is one, the call sets its level
where it stands, and an entry in front of it that matches the name as well keeps its own level and
goes on to control the sites that are initialized later.

## Main definitions

* `controlling` — the first entry that matches a name
* `Effective` — the entry of a pattern is not behind another one that matches the name
* `Promise` — the level is that of every site initialized until the next call that matches

## Main results

* `setVLOGLevel_sets` — the entries after a call of `SetVLOGLevel`
* `controls_step` — the entry that controls a name keeps doing so until the next call that matches
* `promise_iff_effective` — when a call keeps the promise
* `promise_broken` — an entry in front of it can break it
-/

namespace NgLog

namespace VLog

open Transition (run)

variable {Site : Type}

/-! ### The promise -/

/-- The entry that a site of the base name `base` takes. -/
def controlling (infos : List VModuleInfo) (base : List Byte) : Option VModuleInfo :=
  infos.find? fun info => safeFNMatch info.modulePattern base

/-- The state in which `SetVLOGLevel` looks for entries. -/
def State.parsed (s : State Site) (flags : FlagValues) : State Site :=
  if s.initedVModule then s else s.vlog2Initializer flags

/-- There is no entry of this very pattern, or the first entry that matches it is one, or has the
level already. -/
def Effective (infos : List VModuleInfo) (modulePattern : List Byte) (logLevel : Int32) : Prop :=
  (∀ info ∈ infos, info.modulePattern ≠ modulePattern) ∨
    ∃ info, controlling infos modulePattern = some info ∧
      (info.modulePattern = modulePattern ∨ info.vlogLevel = logLevel)

/-- The call is not a `SetVLOGLevel` whose pattern matches the name. -/
def Spares (base : List Byte) : Action Site → Prop
  | .setVLOGLevel _ modulePattern _ => safeFNMatch modulePattern.text base = false
  | .initializeVLOG3 .. => True

/-- The site is controlled by an entry of this level. -/
def ControlledAt (s : State Site) (site : Site) (level : Int32) : Prop :=
  ∃ info, (s.sites site).level = some info ∧ s.loadLevel info = some level

variable [DecidableEq Site]

/-- After any calls that spare the name, every site of this base name that has been initialized
since is controlled by an entry of the level. -/
def Promise (s : State Site) (base : List Byte) (level : Int32) : Prop :=
  ∀ later s', (∀ a ∈ later, Spares base a) → run step s later = some s' → ∀ site,
    (s.sites site).initialized = false → (s'.sites site).initialized = true →
      s'.baseNames site = base → ControlledAt s' site level

/-- A site is left that can be initialized with this base name. -/
def Awaited (s : State Site) (base : List Byte) : Prop :=
  (∃ site, (s.sites site).initialized = false) ∧ ∃ windows fname, baseName windows fname = base

/-! ### The first loop of `SetVLOGLevel` -/

/-- Every pattern matches itself. -/
theorem safeFNMatch_self (pattern : List Byte) : safeFNMatch pattern pattern = true := by
  induction pattern with
  | nil => rfl
  | cons p pattern ih =>
    rw [safeFNMatch]
    exact (if_pos (.inl rfl)).trans ih

/-- The entries of the pattern get the level, the others keep theirs. -/
theorem setLevels_snd (modulePattern : List Byte) (logLevel : Int32) (search : LevelSearch)
    (infos : List VModuleInfo) :
    (setLevels modulePattern logLevel search infos).2 = infos.map fun info =>
      if info.modulePattern = modulePattern then { info with vlogLevel := logLevel } else info := by
  induction infos generalizing search with
  | nil => rfl
  | cons info infos ih =>
    rw [setLevels, List.map_cons]
    by_cases hpattern : info.modulePattern = modulePattern
    · rw [if_pos hpattern, if_pos hpattern]
      exact congrArg (_ :: ·) (ih _)
    · rw [if_neg hpattern, if_neg hpattern]
      exact congrArg (_ :: ·) (ih _)

theorem foundExact_iff (modulePattern : List Byte) (logLevel : Int32) (search : LevelSearch)
    (infos : List VModuleInfo) :
    (setLevels modulePattern logLevel search infos).1.foundExact = true ↔
      search.foundExact = true ∨ ∃ info ∈ infos, info.modulePattern = modulePattern := by
  induction infos generalizing search with
  | nil => simp [setLevels]
  | cons info infos ih =>
    rw [setLevels]
    by_cases hpattern : info.modulePattern = modulePattern
    · rw [if_pos hpattern]
      simp [ih, hpattern]
    · rw [if_neg hpattern]
      dsimp only
      rw [ih]
      split
      · simp [hpattern]
      · simp [hpattern]

/-! ### What a call does to the entries -/

variable {s s' : State Site} {listed : List Site}

/-- The state after the call: the flag is parsed, the base names are those of before, and the sites
of names that the pattern does not match are left alone. -/
structure Sets (s s' : State Site) (modulePattern : List Byte) : Prop where
  inited : s'.initedVModule = true
  baseNames : s'.baseNames = s.baseNames
  initialized : ∀ site, (s'.sites site).initialized = (s.sites site).initialized
  sites : ∀ site, safeFNMatch modulePattern (s.baseNames site) = false →
  s'.sites site = s.sites site

omit [DecidableEq Site] in
theorem parsed_sets (s : State Site) (flags : FlagValues) (modulePattern : List Byte) :
    Sets s (s.parsed flags) modulePattern := by
  rw [State.parsed]
  cases hinited : s.initedVModule with
  | true => exact ⟨hinited, rfl, fun _ => rfl, fun _ _ => rfl⟩
  | false => exact ⟨rfl, rfl, fun _ => rfl, fun _ _ => rfl⟩

/-- The entries after the call: those with their new levels, behind a new one if there was none. -/
def entriesAfter (s : State Site) (modulePattern : List Byte) (logLevel : Int32) :
    List VModuleInfo :=
  let infos := s.vmoduleList.map fun info =>
    if info.modulePattern = modulePattern then { info with vlogLevel := logLevel } else info
  if ∃ info ∈ s.vmoduleList, info.modulePattern = modulePattern then infos
  else ⟨s.nextInfo, modulePattern, logLevel⟩ :: infos

theorem setVLOGLevel_sets (h : Invariant s listed) (flags : FlagValues) (modulePattern : CString)
    (logLevel : Int32) (hstep : step s (.setVLOGLevel flags modulePattern logLevel) = some s') :
    Sets s s' modulePattern.text ∧
      s'.vmoduleList = entriesAfter (s.parsed flags) modulePattern.text logLevel := by
  have hsets := parsed_sets s flags modulePattern.text
  have hparsed : Invariant (s.parsed flags) listed := invariant_parsed h flags
  obtain ⟨⟨s₂, result⟩, hcall, hs'⟩ := Option.map_eq_some_iff.mp hstep
  cases hs'
  rw [setVLOGLevel] at hcall
  rw [show (if s.initedVModule = true then s else s.vlog2Initializer flags) = s.parsed flags
    from rfl] at hcall
  generalize s.parsed flags = s₁ at hsets hparsed hcall ⊢
  have hexact := foundExact_iff modulePattern.text logLevel { result := flags.v } s₁.vmoduleList
  have hinfos := setLevels_snd modulePattern.text logLevel { result := flags.v } s₁.vmoduleList
  have hmap := setLevels_map modulePattern.text logLevel { result := flags.v } s₁.vmoduleList
  generalize setLevels modulePattern.text logLevel { result := flags.v } s₁.vmoduleList = levels
    at hcall hexact hinfos hmap
  obtain ⟨search, infos⟩ := levels
  simp only [Bool.false_eq_true, false_or] at hexact
  dsimp only at hcall
  by_cases hfound : search.foundExact = true
  · rw [if_pos hfound] at hcall
    rw [entriesAfter, if_pos (hexact.mp hfound), ← hinfos]
    cases hcall
    exact ⟨⟨hsets.inited, hsets.baseNames, hsets.initialized, hsets.sites⟩, rfl⟩
  · rw [if_neg hfound] at hcall
    rw [entriesAfter, if_neg fun hpattern => hfound (hexact.mpr hpattern), ← hinfos]
    have hlevels := invariant_of_map_eq hparsed hmap
    obtain ⟨links, hloop, -⟩ := redirect_spec hlevels modulePattern.text s₁.nextInfo
    obtain ⟨s₃, hadd, hpair⟩ := Option.map_eq_some_iff.mp hcall
    cases hpair
    rw [addEntry] at hadd
    dsimp only at hadd hloop
    rw [hloop] at hadd
    cases hadd
    refine ⟨⟨hsets.inited, hsets.baseNames, fun site => ?_, fun site hno => ?_⟩, rfl⟩
    · rw [← hsets.initialized site]
      dsimp only
      split <;> rfl
    · rw [← hsets.sites site hno]
      exact if_neg fun hmatch => by
        rw [hsets.baseNames, hno] at hmatch
        exact Bool.false_ne_true hmatch.2

omit [DecidableEq Site] in
/-- The entry that a name takes after the call. -/
theorem controlling_entriesAfter (s : State Site) (modulePattern : List Byte) (logLevel : Int32)
    (base : List Byte) (h : (∃ info ∈ s.vmoduleList, info.modulePattern = modulePattern) ∨
      safeFNMatch modulePattern base = false) :
    controlling (entriesAfter s modulePattern logLevel) base =
      (controlling s.vmoduleList base).map fun info =>
        if info.modulePattern = modulePattern then { info with vlogLevel := logLevel }
        else info := by
  have hmap : controlling (s.vmoduleList.map fun info =>
        if info.modulePattern = modulePattern then { info with vlogLevel := logLevel }
        else info) base
      = (controlling s.vmoduleList base).map fun info =>
        if info.modulePattern = modulePattern then { info with vlogLevel := logLevel }
        else info := by
    rw [controlling, List.find?_map]
    congr 2
    funext info
    simp only [Function.comp_apply]
    split <;> rfl
  rw [entriesAfter]
  split
  · exact hmap
  · rename_i hnone
    have hno := h.resolve_left hnone
    rw [controlling, List.find?_cons_of_neg (by simp [hno])]
    exact hmap

/-- What `InitializeVLOG3` does once the flag is parsed: a site that is not cached yet points to the
entry that its name takes. -/
theorem initializeVLOG3_caches (hinited : s.initedVModule = true) {flags : FlagValues}
    {windows : Bool} {site : Site} {levelDefault : ℕ} {fname : CString} {verboseLevel : Int32}
    (hstep : step s (.initializeVLOG3 flags windows site levelDefault fname verboseLevel) =
      some s') :
    s'.initedVModule = true ∧ s'.vmoduleList = s.vmoduleList ∧
      ((s.sites site).initialized = true ∧ s'.sites = s.sites ∧ s'.baseNames = s.baseNames ∨
        ∃ flag : SiteFlag, s'.sites = Function.update s.sites site flag ∧
          s'.baseNames = Function.update s.baseNames site (baseName windows fname) ∧
          flag.initialized = true ∧
          flag.level = (controlling s.vmoduleList (baseName windows fname)).map
            VModuleInfo.address) := by
  obtain ⟨⟨s₁, result⟩, hcall, hs'⟩ := Option.map_eq_some_iff.mp hstep
  cases hs'
  rw [initializeVLOG3] at hcall
  by_cases hsite : (s.sites site).initialized = true
  · rw [if_pos hsite] at hcall
    cases hlevel : (s.sites site).level with
    | none =>
      rw [hlevel] at hcall
      obtain ⟨flag, -, hpair⟩ := Option.map_eq_some_iff.mp hcall
      cases hpair
      exact ⟨hinited, rfl, .inl ⟨hsite, rfl, rfl⟩⟩
    | some info =>
      rw [hlevel] at hcall
      obtain ⟨level, -, hpair⟩ := Option.map_eq_some_iff.mp hcall
      cases hpair
      exact ⟨hinited, rfl, .inl ⟨hsite, rfl, rfl⟩⟩
  · rw [if_neg hsite, hinited] at hcall
    dsimp only at hcall
    rw [if_pos rfl, if_pos rfl] at hcall
    split at hcall
    · cases hcall
      exact ⟨hinited, rfl, .inr ⟨_, rfl, rfl, rfl, rfl⟩⟩
    · cases hcall
      exact ⟨hinited, rfl, .inr ⟨_, rfl, rfl, rfl, rfl⟩⟩

/-! ### Until the next call that matches -/

/-- Since `start`, the name takes the entry `info` at the level, and so do the sites of this
name. -/
structure Controls (start : State Site) (base : List Byte) (level : Int32) (info : ℕ)
    (s : State Site) : Prop where
  inited : s.initedVModule = true
  entry : ∃ entry, controlling s.vmoduleList base = some entry ∧ entry.address = info ∧
    entry.vlogLevel = level
  sites : ∀ site, (start.sites site).initialized = false → (s.sites site).initialized = true →
    s.baseNames site = base → (s.sites site).level = some info

theorem controls_step {start : State Site} {base : List Byte} {level : Int32} {info : ℕ}
    (h : Invariant s listed) (hcontrols : Controls start base level info s) {a : Action Site}
    (hspares : Spares base a) (hstep : step s a = some s') :
    Controls start base level info s' := by
  obtain ⟨entry, hentry, haddress, hlevel⟩ := hcontrols.entry
  cases a with
  | setVLOGLevel flags modulePattern logLevel =>
    have hno : safeFNMatch modulePattern.text base = false := hspares
    obtain ⟨hsets, hlist⟩ := setVLOGLevel_sets h flags modulePattern logLevel hstep
    have hparsed : s.parsed flags = s := if_pos hcontrols.inited
    have hother : entry.modulePattern ≠ modulePattern.text := by
      rintro hpattern
      have hmatch := List.find?_some hentry
      rw [hpattern, hno] at hmatch
      cases hmatch
    refine ⟨hsets.inited, ⟨entry, ?_, haddress, hlevel⟩, fun site hnew hinitialized hbase => ?_⟩
    · rw [hlist, controlling_entriesAfter _ _ _ _ (.inr hno), hparsed, hentry, Option.map_some,
        if_neg hother]
    · rw [hsets.initialized] at hinitialized
      rw [hsets.baseNames] at hbase
      rw [hsets.sites site (hbase ▸ hno)]
      exact hcontrols.sites site hnew hinitialized hbase
  | initializeVLOG3 flags windows site levelDefault fname verboseLevel =>
    obtain ⟨hinited, hlist, hcaches⟩ := initializeVLOG3_caches hcontrols.inited hstep
    refine ⟨hinited, ⟨entry, hlist ▸ hentry, haddress, hlevel⟩, fun other hnew hinit hbase => ?_⟩
    rcases hcaches with ⟨-, hsites, hnames⟩ | ⟨flag, hsites, hnames, -, hflag⟩
    · rw [hsites] at hinit ⊢
      rw [hnames] at hbase
      exact hcontrols.sites other hnew hinit hbase
    · by_cases heq : other = site
      · subst heq
        rw [hnames, Function.update_self] at hbase
        rw [hsites, Function.update_self, hflag, hbase, hentry, Option.map_some, haddress]
      · rw [hsites, Function.update_of_ne heq] at hinit ⊢
        rw [hnames, Function.update_of_ne heq] at hbase
        exact hcontrols.sites other hnew hinit hbase

/-- A base name that a site has been initialized for since `start` is that of a file. -/
def Named (start s : State Site) : Prop :=
  ∀ site, (start.sites site).initialized = false → (s.sites site).initialized = true →
    ∃ windows fname, baseName windows fname = s.baseNames site

theorem named_step {start : State Site} (h : Invariant s listed) (hinited : s.initedVModule = true)
    (hnamed : Named start s) {a : Action Site} (hstep : step s a = some s') :
    s'.initedVModule = true ∧ Named start s' := by
  cases a with
  | setVLOGLevel flags modulePattern logLevel =>
    obtain ⟨hsets, -⟩ := setVLOGLevel_sets h flags modulePattern logLevel hstep
    refine ⟨hsets.inited, fun site hnew hinitialized => ?_⟩
    rw [hsets.initialized] at hinitialized
    rw [hsets.baseNames]
    exact hnamed site hnew hinitialized
  | initializeVLOG3 flags windows site levelDefault fname verboseLevel =>
    obtain ⟨hinited', -, hcaches⟩ := initializeVLOG3_caches hinited hstep
    refine ⟨hinited', fun other hnew hinit => ?_⟩
    rcases hcaches with ⟨-, hsites, hnames⟩ | ⟨flag, hsites, hnames, -, -⟩
    · rw [hsites] at hinit
      rw [hnames]
      exact hnamed other hnew hinit
    · by_cases heq : other = site
      · subst heq
        exact ⟨windows, fname, by rw [hnames, Function.update_self]⟩
      · rw [hsites, Function.update_of_ne heq] at hinit
        rw [hnames, Function.update_of_ne heq]
        exact hnamed other hnew hinit

omit [DecidableEq Site] in
/-- An entry is found at its address. -/
theorem loadLevel_of_mem (h : Invariant s listed) {entry : VModuleInfo}
    (hentry : entry ∈ s.vmoduleList) : s.loadLevel entry.address = some entry.vlogLevel := by
  have hnodup := h.addresses
  rw [State.loadLevel]
  generalize s.vmoduleList = infos at hentry hnodup
  induction infos with
  | nil => cases hentry
  | cons info infos ih =>
    obtain ⟨hnotin, hnodup⟩ := List.nodup_cons.mp hnodup
    rcases List.mem_cons.mp hentry with rfl | hentry
    · simp
    · have hne : info.address ≠ entry.address := fun heq =>
        hnotin (heq ▸ List.mem_map.mpr ⟨entry, hentry, rfl⟩)
      rw [List.find?_cons_of_neg (by simpa using hne)]
      exact ih hentry hnodup

/-! ### When the promise is kept -/

/-- A call that is effective puts an entry of the level in front. -/
theorem controls_of_effective (h : Invariant s listed) {flags : FlagValues}
    {modulePattern : CString} {logLevel : Int32}
    (hstep : step s (.setVLOGLevel flags modulePattern logLevel) = some s')
    (heffective : Effective (s.parsed flags).vmoduleList modulePattern.text logLevel) :
    ∃ info, Controls s' modulePattern.text logLevel info s' := by
  obtain ⟨hsets, hlist⟩ := setVLOGLevel_sets h flags modulePattern logLevel hstep
  have hsites : ∀ info site, (s'.sites site).initialized = false →
      (s'.sites site).initialized = true → s'.baseNames site = modulePattern.text →
        (s'.sites site).level = some info := by
    intro info site hnew hinitialized
    rw [hnew] at hinitialized
    cases hinitialized
  by_cases hexact : ∃ info ∈ (s.parsed flags).vmoduleList, info.modulePattern = modulePattern.text
  · obtain ⟨info, hinfo, hlevel⟩ := heffective.resolve_left fun hnone =>
      hexact.elim fun info hinfo => hnone info hinfo.1 hinfo.2
    refine ⟨info.address, hsets.inited, ?_, hsites _⟩
    rw [hlist, controlling_entriesAfter _ _ _ _ (.inl hexact), hinfo, Option.map_some]
    by_cases hpattern : info.modulePattern = modulePattern.text
    · rw [if_pos hpattern]
      exact ⟨_, rfl, rfl, rfl⟩
    · rw [if_neg hpattern]
      exact ⟨_, rfl, rfl, hlevel.resolve_left hpattern⟩
  · refine ⟨(s.parsed flags).nextInfo, hsets.inited, ?_, hsites _⟩
    refine ⟨⟨_, modulePattern.text, logLevel⟩, ?_, rfl, rfl⟩
    rw [hlist, entriesAfter, if_neg hexact]
    exact List.find?_cons_of_pos (safeFNMatch_self modulePattern.text)

/-- A call that is not leaves an entry of another level in front. -/
theorem controlling_of_not_effective (h : Invariant s listed) {flags : FlagValues}
    {modulePattern : CString} {logLevel : Int32}
    (hstep : step s (.setVLOGLevel flags modulePattern logLevel) = some s')
    (heffective : ¬Effective (s.parsed flags).vmoduleList modulePattern.text logLevel) :
    ∃ info, controlling s'.vmoduleList modulePattern.text = some info ∧
      info.vlogLevel ≠ logLevel := by
  obtain ⟨-, hlist⟩ := setVLOGLevel_sets h flags modulePattern logLevel hstep
  rw [Effective, not_or, not_forall] at heffective
  obtain ⟨⟨exact, hexact⟩, hfirst⟩ := heffective
  rw [Classical.not_imp, not_not] at hexact
  have hsome : (controlling (s.parsed flags).vmoduleList modulePattern.text).isSome = true := by
    rw [controlling, List.find?_isSome]
    exact ⟨exact, hexact.1, hexact.2 ▸ safeFNMatch_self _⟩
  obtain ⟨info, hinfo⟩ := Option.isSome_iff_exists.mp hsome
  have hother : ¬(info.modulePattern = modulePattern.text ∨ info.vlogLevel = logLevel) :=
    fun hor => hfirst ⟨info, hinfo, hor⟩
  rw [not_or] at hother
  refine ⟨info, ?_, hother.2⟩
  rw [hlist, controlling_entriesAfter _ _ _ _ (.inl ⟨exact, hexact⟩), hinfo, Option.map_some,
    if_neg hother.1]

omit [DecidableEq Site] in
/-- A site that is waiting before the call is waiting after it. -/
theorem Sets.awaited_iff {modulePattern base : List Byte} (h : Sets s s' modulePattern) :
    Awaited s' base ↔ Awaited s base := by
  rw [Awaited, Awaited]
  simp only [h.initialized]

/-- An effective call keeps the promise: the entry in front stays in front. -/
theorem promise_of_effective (h : Invariant s listed) {flags : FlagValues}
    {modulePattern : CString} {logLevel : Int32}
    (hstep : step s (.setVLOGLevel flags modulePattern logLevel) = some s')
    (heffective : Effective (s.parsed flags).vmoduleList modulePattern.text logLevel) :
    Promise s' modulePattern.text logLevel := by
  intro later s'' hspares hrun site hnew hinitialized hbase
  obtain ⟨info, hcontrols⟩ := controls_of_effective h hstep heffective
  obtain ⟨t, listed', ht, hinv⟩ := step_spec h (.setVLOGLevel flags modulePattern logLevel)
  cases hstep.symm.trans ht
  have hlater : Controls s' modulePattern.text logLevel info s'' ∧ ∃ listed, Invariant s'' listed :=
    Transition.run_invariant
      (I := fun t => Controls s' modulePattern.text logLevel info t ∧ ∃ listed, Invariant t listed)
      (P := Spares modulePattern.text)
      (fun t a t' ha ht htt' => by
        obtain ⟨hcontrols, listed, hinv⟩ := ht
        obtain ⟨u, listed', hu, hinv'⟩ := step_spec hinv a
        cases htt'.symm.trans hu
        exact ⟨controls_step hinv hcontrols ha htt', listed', hinv'⟩)
      hspares ⟨hcontrols, listed', hinv⟩ hrun
  obtain ⟨hcontrols, listed'', hinv⟩ := hlater
  obtain ⟨entry, hentry, haddress, hlevel⟩ := hcontrols.entry
  refine ⟨info, hcontrols.sites site hnew hinitialized hbase, ?_⟩
  rw [← haddress, loadLevel_of_mem hinv (List.mem_of_find?_eq_some hentry), hlevel]

/-- A call that is not effective breaks the promise for the next site of this name. -/
theorem not_promise_of_awaited (h : Invariant s listed) {flags : FlagValues}
    {modulePattern : CString} {logLevel : Int32}
    (hstep : step s (.setVLOGLevel flags modulePattern logLevel) = some s')
    (heffective : ¬Effective (s.parsed flags).vmoduleList modulePattern.text logLevel)
    (hawaited : Awaited s' modulePattern.text) : ¬Promise s' modulePattern.text logLevel := by
  obtain ⟨⟨site, hsite⟩, windows, fname, hbase⟩ := hawaited
  obtain ⟨info, hinfo, hlevel⟩ := controlling_of_not_effective h hstep heffective
  obtain ⟨hsets, -⟩ := setVLOGLevel_sets h flags modulePattern logLevel hstep
  obtain ⟨t, listed', ht, hinv⟩ := step_spec h (.setVLOGLevel flags modulePattern logLevel)
  cases hstep.symm.trans ht
  obtain ⟨s'', listed'', hnext, hinv''⟩ :=
    step_spec hinv (.initializeVLOG3 flags windows site 0 fname 0)
  intro hpromise
  obtain ⟨-, hlist, hcaches⟩ := initializeVLOG3_caches hsets.inited hnext
  rcases hcaches with ⟨hcached, -, -⟩ | ⟨flag, hsites, hnames, hcached, hflag⟩
  · rw [hsite] at hcached
    cases hcached
  · obtain ⟨address, haddress, hload⟩ :=
      hpromise [.initializeVLOG3 flags windows site 0 fname 0] s''
      (by simp [Spares]) (Transition.run_singleton.trans hnext) site hsite
      (by rw [hsites, Function.update_self, hcached]) (by rw [hnames, Function.update_self, hbase])
    rw [hsites, Function.update_self, hflag, hbase, hinfo] at haddress
    cases haddress
    have hmem : info ∈ s''.vmoduleList := hlist ▸ List.mem_of_find?_eq_some hinfo
    rw [loadLevel_of_mem hinv'' hmem] at hload
    exact hlevel (Option.some.inj hload)

/-- Where no site is waiting, there is nothing to keep. -/
theorem promise_of_not_awaited (h : Invariant s listed) (hinited : s.initedVModule = true)
    {base : List Byte} {level : Int32} (hnone : ¬Awaited s base) : Promise s base level := by
  intro later s' _ hrun site hnew hinitialized hbase
  have hnamed : Named s s := by
    intro site hnew hinitialized
    rw [hnew] at hinitialized
    cases hinitialized
  have hlater : (∃ listed, Invariant s' listed) ∧ s'.initedVModule = true ∧ Named s s' :=
    Transition.run_invariant_all
      (I := fun t => (∃ listed, Invariant t listed) ∧ t.initedVModule = true ∧ Named s t)
      (fun t a t' ht htt' => by
        obtain ⟨⟨listed, hinv⟩, hinited, hnamed⟩ := ht
        obtain ⟨u, listed', hu, hinv'⟩ := step_spec hinv a
        cases htt'.symm.trans hu
        exact ⟨⟨listed', hinv'⟩, named_step hinv hinited hnamed htt'⟩)
      ⟨⟨listed, h⟩, hinited, hnamed⟩ hrun
  obtain ⟨windows, fname, hname⟩ := hlater.2.2 site hnew hinitialized
  exact absurd ⟨⟨site, hnew⟩, windows, fname, hname.trans hbase⟩ hnone

theorem promise_iff (h : Invariant s listed) {flags : FlagValues} {modulePattern : CString}
    {logLevel : Int32} (hstep : step s (.setVLOGLevel flags modulePattern logLevel) = some s') :
    Promise s' modulePattern.text logLevel ↔ (Awaited s modulePattern.text →
      Effective (s.parsed flags).vmoduleList modulePattern.text logLevel) := by
  have hawaited : Awaited s' modulePattern.text ↔ Awaited s modulePattern.text :=
    (setVLOGLevel_sets h flags modulePattern logLevel hstep).1.awaited_iff
  rw [← hawaited]
  constructor
  · intro hpromise hwaiting
    by_contra heffective
    exact not_promise_of_awaited h hstep heffective hwaiting hpromise
  · intro heffective
    by_cases hwaiting : Awaited s' modulePattern.text
    · exact promise_of_effective h hstep (heffective hwaiting)
    · obtain ⟨t, listed', ht, hinv⟩ := step_spec h (.setVLOGLevel flags modulePattern logLevel)
      cases hstep.symm.trans ht
      exact promise_of_not_awaited hinv
        (setVLOGLevel_sets h flags modulePattern logLevel hstep).1.inited hwaiting

/-- After any calls, `SetVLOGLevel` of a name and a level ends, and every site of this base name
that is initialized later is controlled by an entry of the level, until the next `SetVLOGLevel`
whose pattern matches the name, if and only if no site is waiting to be initialized with this base
name or the call is effective: there was no entry of this very pattern, or it is the first of those
that match it, or the first one has the level already. -/
theorem promise_iff_effective (history : List (Action Site)) (flags : FlagValues)
    (modulePattern : CString) (logLevel : Int32) :
    ∃ s s' : State Site, run step State.init history = some s ∧
      step s (.setVLOGLevel flags modulePattern logLevel) = some s' ∧
      (Promise s' modulePattern.text logLevel ↔ (Awaited s modulePattern.text →
        Effective (s.parsed flags).vmoduleList modulePattern.text logLevel)) := by
  obtain ⟨s, listed, hrun, h⟩ :=
    run_spec history (invariant_init : Invariant (State.init : State Site) [])
  obtain ⟨s', listed', hstep, -⟩ := step_spec h (.setVLOGLevel flags modulePattern logLevel)
  exact ⟨s, s', hrun, hstep, promise_iff h hstep⟩

/-- With `SetVLOGLevel("a", 2)` and `SetVLOGLevel("a*", 1)`, the entry `a*` comes to stand in front
of `a`. The level 3 that is set for `a` then is not that of a site of `a.cc` that is initialized
later. -/
theorem promise_broken :
    let flags : FlagValues := ⟨[], 0, fun _ => 0⟩
    let a : CString := ⟨[97], by decide⟩
    let wildcard : CString := ⟨[97, 42], by decide⟩
    ∃ s s' : State Unit,
      run step State.init [.setVLOGLevel flags a 2, .setVLOGLevel flags wildcard 1] = some s ∧
      step s (.setVLOGLevel flags a 3) = some s' ∧ ¬Promise s' a.text 3 := by
  intro flags a wildcard
  have h : Invariant (State.init : State Unit) [] := invariant_init
  obtain ⟨s₁, listed₁, hfirst, h₁⟩ := step_spec h (.setVLOGLevel flags a 2)
  obtain ⟨s₂, listed₂, hsecond, h₂⟩ := step_spec h₁ (.setVLOGLevel flags wildcard 1)
  obtain ⟨s₃, listed₃, hthird, h₃⟩ := step_spec h₂ (.setVLOGLevel flags a 3)
  refine ⟨s₂, s₃, ?_, hthird, ?_⟩
  · exact Transition.run_cons_eq_some.mpr ⟨s₁, hfirst, Transition.run_singleton.trans hsecond⟩
  · have hempty : parseVModule (flags.vmodule.takeWhile (· ≠ 0)) = [] := by
      rw [parseVModule]
      rfl
    have hparsed : ((State.init : State Unit).parsed flags).vmoduleList = [] := by
      rw [State.parsed, if_neg (by decide), State.vlog2Initializer, hempty]
      rfl
    obtain ⟨hsets₁, hlist₁⟩ := setVLOGLevel_sets h flags a 2 hfirst
    obtain ⟨hsets₂, hlist₂⟩ := setVLOGLevel_sets h₁ flags wildcard 1 hsecond
    have hwildcard : ∃ address address', s₂.vmoduleList =
        [⟨address, wildcard.text, 1⟩, ⟨address', a.text, 2⟩] := by
      rw [State.parsed, if_pos hsets₁.inited] at hlist₂
      rw [entriesAfter, hparsed] at hlist₁
      rw [entriesAfter, hlist₁] at hlist₂
      exact ⟨_, _, hlist₂⟩
    obtain ⟨address, address', hlist⟩ := hwildcard
    have hwaiting : Awaited s₂ a.text := by
      refine ⟨⟨(), ?_⟩, false, a, rfl⟩
      rw [hsets₂.initialized, hsets₁.initialized]
      rfl
    have hfront : controlling s₂.vmoduleList a.text = some ⟨address, wildcard.text, 1⟩ := by
      rw [hlist]
      rfl
    rw [promise_iff h₂ hthird, State.parsed, if_pos hsets₂.inited]
    intro hkept
    rcases hkept hwaiting with hnone | ⟨info, hinfo, hright⟩
    · exact hnone ⟨address', a.text, 2⟩ (by simp [hlist]) rfl
    · cases hfront.symm.trans hinfo
      rcases hright with hpattern | hlevel
      · exact absurd (show wildcard.text = a.text from hpattern) (by decide)
      · exact absurd (show (1 : Int32) = 3 from hlevel) (by decide)

end VLog

end NgLog
