import Mathlib.Data.List.Nodup
import NgLog.Sites.Registry

/-!
# Looking up call sites

The map of the registry has each location once, by content. An entry of the table stands for the
site that the map has for its location, and sites are never removed. So whether a call finds its
location in the table, finds the table full, or searches the map, it returns the site of its
location.

## Main definitions

* `LookupInvariant`, `GetPhase.Known` — the table agrees with the map, and so does each call
* `LookupGuarantee` — sites stay, and a lock is released by its holder only

## Main results

* `getNext_spec` — the steps keep the invariant
* `sites_eq_iff` — sites are the same if and only if their locations are
-/

namespace NgLog

namespace Sites

variable {TypeInfo T Call : Type} {p : Platform TypeInfo T} {call : Call}
  {m m' : Memory TypeInfo T Call}

theorem siteKeyEqual_iff {l r : SiteKey} : siteKeyEqual l r = true ↔ l = r := by
  obtain ⟨file, function, line, column⟩ := l
  obtain ⟨file', function', line', column'⟩ := r
  simp only [siteKeyEqual, Bool.and_eq_true, beq_iff_eq, SiteKey.mk.injEq, and_assoc]

theorem matchesLocation_iff {siteAlias : SiteAlias} {location : Location} :
    siteAlias.matchesLocation location = true ↔
      (⟨siteAlias.file, siteAlias.function, siteAlias.line, siteAlias.column⟩ : Location) =
        location := by
  obtain ⟨file, function, line, column, site⟩ := siteAlias
  obtain ⟨file', function', line', column'⟩ := location
  simp only [SiteAlias.matchesLocation, Bool.and_eq_true, beq_iff_eq, Location.mk.injEq, and_assoc]

/-! ### What is known -/

/-- The site is the one that the map has for the location. -/
def Memory.IsSiteOf (m : Memory TypeInfo T Call) (p : Platform TypeInfo T) (site : ℕ)
    (location : Location) : Prop :=
  m.sites[site]? = some (p.key location)

/-- The map has each location once, and the table agrees with it. -/
structure LookupInvariant (p : Platform TypeInfo T) (m : Memory TypeInfo T Call) : Prop where
  nodup : m.sites.Nodup
  aliases : ∀ i siteAlias, m.aliases i = some siteAlias → m.IsSiteOf p siteAlias.site
    ⟨siteAlias.file, siteAlias.function, siteAlias.line, siteAlias.column⟩

/-- What is known of a call of `Get`. -/
def GetPhase.Known (p : Platform TypeInfo T) (call : Call) (m : Memory TypeInfo T Call) :
    GetPhase → Prop
  | .probing _ _ | .locking _ => True
  | .finding _ => m.mutex = some call
  | .linking location site _ | .storing location site _ | .unlocking location site =>
    m.mutex = some call ∧ m.IsSiteOf p site location
  | .returned location site => m.IsSiteOf p site location

/-- What a step of a call guarantees to the lookups of the others. -/
structure LookupGuarantee (call : Call) (m m' : Memory TypeInfo T Call) : Prop where
  sites : m.sites <+: m'.sites
  mutex : ∀ other, other ≠ call → m.mutex = some other → m'.mutex = some other

theorem LookupGuarantee.refl (call : Call) (m : Memory TypeInfo T Call) :
    LookupGuarantee call m m := ⟨List.prefix_refl _, fun _ _ => id⟩

/-- An element of a list stays at its place when the list is extended. -/
theorem getElem?_of_prefix {α : Type*} {xs ys : List α} (h : xs <+: ys) {i : ℕ} {x : α}
    (hx : xs[i]? = some x) : ys[i]? = some x := by
  obtain ⟨hlt, rfl⟩ := List.getElem?_eq_some_iff.mp hx
  exact List.prefix_iff_getElem?.mp h i hlt

theorem LookupGuarantee.isSiteOf (h : LookupGuarantee call m m') {site : ℕ} {location : Location}
    (hsite : m.IsSiteOf p site location) : m'.IsSiteOf p site location :=
  getElem?_of_prefix h.sites hsite

/-- What is known of a call survives the steps of the others. -/
theorem GetPhase.Known.stable {other : Call} (hne : other ≠ call)
    (hguarantee : LookupGuarantee call m m') {phase : GetPhase} (h : phase.Known p other m) :
    phase.Known p other m' := by
  cases phase with
  | probing => trivial
  | locking => trivial
  | finding => exact hguarantee.mutex other hne h
  | linking => exact ⟨hguarantee.mutex other hne h.1, hguarantee.isSiteOf h.2⟩
  | storing => exact ⟨hguarantee.mutex other hne h.1, hguarantee.isSiteOf h.2⟩
  | unlocking => exact ⟨hguarantee.mutex other hne h.1, hguarantee.isSiteOf h.2⟩
  | returned => exact hguarantee.isSiteOf h

/-! ### Steps -/

theorem findOrInsert_spec (hnodup : m.sites.Nodup) (key : SiteKey) :
    ∃ sites site, m.findOrInsert key = ({ m with sites }, site) ∧ m.sites <+: sites ∧
      sites.Nodup ∧ sites[site]? = some key := by
  rw [Memory.findOrInsert]
  split
  · rename_i site hsite
    obtain ⟨hlt, hequal, -⟩ := List.findIdx?_eq_some_iff_getElem.mp hsite
    refine ⟨m.sites, site, rfl, List.prefix_refl _, hnodup, ?_⟩
    rw [List.getElem?_eq_getElem hlt, ← siteKeyEqual_iff.mp hequal]
  · rename_i hnone
    refine ⟨m.sites ++ [key], m.sites.length, rfl, List.prefix_append _ _, ?_, ?_⟩
    · rw [← List.concat_eq_append, List.nodup_concat]
      refine ⟨fun hmem => ?_, hnodup⟩
      have hfalse := List.findIdx?_eq_none_iff.mp hnone key hmem
      rw [siteKeyEqual_iff.mpr rfl] at hfalse
      cases hfalse
    · rw [List.getElem?_append_right (Nat.le_refl _), Nat.sub_self]
      rfl

/-- A step of `Get` changes the lock, the map and the table only. -/
structure GetFrame (m m' : Memory TypeInfo T Call) : Prop where
  impls : m'.impls = m.impls
  constructions : m'.constructions = m.constructions
  destroyed : m'.destroyed = m.destroyed

theorem GetFrame.refl (m : Memory TypeInfo T Call) : GetFrame m m := ⟨rfl, rfl, rfl⟩

/-- A step of `Get` keeps the invariant and what is known of its call. -/
theorem getNext_spec (hm : LookupInvariant p m) {phase phase' : GetPhase}
    (hknown : phase.Known p call m) (hnext : getNext p call m phase = some (m', phase')) :
    LookupInvariant p m' ∧ phase'.Known p call m' ∧ LookupGuarantee call m m' ∧ GetFrame m m' := by
  cases phase with
  | probing location i =>
    rw [getNext] at hnext
    split_ifs at hnext
    · cases hnext
      exact ⟨hm, trivial, .refl _ _, .refl _⟩
    split at hnext
    · cases hnext
      exact ⟨hm, trivial, .refl _ _, .refl _⟩
    · rename_i siteAlias halias
      split_ifs at hnext with hmatches
      · cases hnext
        have hsite := hm.aliases _ siteAlias halias
        rw [matchesLocation_iff.mp hmatches] at hsite
        exact ⟨hm, hsite, .refl _ _, .refl _⟩
      · cases hnext
        exact ⟨hm, trivial, .refl _ _, .refl _⟩
  | locking location =>
    rw [getNext] at hnext
    split_ifs at hnext with hmutex
    cases hnext
    refine ⟨⟨hm.nodup, hm.aliases⟩, rfl, ⟨List.prefix_refl _, fun other _ hother => ?_⟩,
      rfl, rfl, rfl⟩
    rw [hother] at hmutex
    exact absurd rfl hmutex
  | finding location =>
    obtain ⟨sites, site, hfind, hsites, hnodup, hsite⟩ :=
      findOrInsert_spec hm.nodup (p.key location)
    rw [getNext, hfind] at hnext
    cases hnext
    have hguarantee : LookupGuarantee call m { m with sites } := ⟨hsites, fun _ _ => id⟩
    refine ⟨⟨hnodup, fun i siteAlias halias => ?_⟩, ⟨hknown, hsite⟩, hguarantee, rfl, rfl, rfl⟩
    exact hguarantee.isSiteOf (hm.aliases i siteAlias halias)
  | linking location site i =>
    rw [getNext] at hnext
    split_ifs at hnext
    · cases hnext
      exact ⟨hm, hknown, .refl _ _, .refl _⟩
    split at hnext
    · cases hnext
      exact ⟨hm, hknown, .refl _ _, .refl _⟩
    · split_ifs at hnext
      · cases hnext
        exact ⟨hm, hknown, .refl _ _, .refl _⟩
      · cases hnext
        exact ⟨hm, hknown, .refl _ _, .refl _⟩
  | storing location site i =>
    rw [getNext] at hnext
    cases hnext
    refine ⟨⟨hm.nodup, fun j siteAlias halias => ?_⟩, hknown, ⟨List.prefix_refl _, fun _ _ => id⟩,
      rfl, rfl, rfl⟩
    dsimp only at halias
    by_cases hj : j = p.aliasSlot location i
    · subst hj
      rw [Function.update_self] at halias
      cases halias
      exact hknown.2
    · rw [Function.update_of_ne hj] at halias
      exact hm.aliases j siteAlias halias
  | unlocking location site =>
    rw [getNext] at hnext
    cases hnext
    refine ⟨⟨hm.nodup, hm.aliases⟩, hknown.2,
      ⟨List.prefix_refl _, fun other hne hother => ?_⟩, rfl, rfl, rfl⟩
    exact absurd (Option.some.inj (hother.symm.trans hknown.1)) hne
  | returned location site => cases hnext

/-! ### The answers -/

/-- The locations are equal by content. -/
def Platform.SameSite (p : Platform TypeInfo T) (l l' : Location) : Prop :=
  (p.chars l.fileName).text = (p.chars l'.fileName).text ∧
    (p.chars l.functionName).text = (p.chars l'.functionName).text ∧ l.line = l'.line ∧
    l.column = l'.column

theorem key_eq_iff {l l' : Location} : p.key l = p.key l' ↔ p.SameSite l l' := by
  rw [Platform.key, Platform.key, SiteKey.mk.injEq, Platform.SameSite]

/-- The sites of two locations are the same if and only if the locations are. -/
theorem sites_eq_iff (hm : LookupInvariant p m) {l l' : Location} {site site' : ℕ}
    (hsite : m.IsSiteOf p site l) (hsite' : m.IsSiteOf p site' l') :
    site = site' ↔ p.SameSite l l' := by
  rw [← key_eq_iff]
  constructor
  · rintro rfl
    exact Option.some.inj (hsite.symm.trans hsite')
  · intro hkey
    have hlt : site < m.sites.length := (List.getElem?_eq_some_iff.mp hsite).1
    refine (List.getElem?_inj hlt hm.nodup).mp ?_
    rw [hsite, hsite', hkey]

end Sites

end NgLog
