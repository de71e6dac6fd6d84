import Mathlib.Data.List.Nodup
import Mathlib.Data.List.Pairwise
import NgLog.Flags.Registry
import NgLog.Support.PartialMaps
import NgLog.Support.Transition

/-!
# The tables of the registry agree

In every sequence of calls that does not abort the process, the tables of the registry agree with
each other: the flags found by name are those that have an entry, and the other tables only speak of
flags, modules and groups that exist. `RegisterFlag` refuses a flag whose name, with or without the
prefix "no", would let an option mean two things, so no option does.

## Main definitions

* `Consistent` — the invariant
* `registrationOrder` — the registered flags, in the order of their registration
* `Refused` — the results that say that a call has done nothing

## Main results

* `consistent_step` — every call keeps the invariant
* `findNegatedLocked_of_findFlagLocked` — no option selects a flag and negates another
* `registry_consistent` — both, for every run
-/

namespace NgLog

namespace Flags

open Transition (run)

open PartialMap

variable {Formatter : Type} {r r' : Registry Formatter}

/-! ### The invariant -/

/-- The flags after one more call, in the order of their registration. -/
def applyRegistration (order : List FlagBase) : Call Formatter → List FlagBase
  | .registerFlag flag _ => order ++ [flag]
  | .unregisterFlag flag => order.erase flag
  | _ => order

/-- The flags that are registered after the calls, in the order of their registration. -/
def registrationOrder (calls : List (Call Formatter)) : List FlagBase :=
  calls.foldl applyRegistration []

/-- The entry belongs to no module, or to a group of a registered module. -/
def EntryOk (r : Registry Formatter) (entry : FlagEntry) : Prop :=
  (entry.moduleIdentity = none ∧ entry.module = [] ∧ entry.group = []) ∨
    ∃ info, r.modules entry.module = some info ∧ entry.moduleIdentity = some info.identity ∧
      entry.module ≠ [] ∧ entry.group ≠ [] ∧ ∃ group ∈ info.groups, group.name = entry.group

/-- The tables agree. -/
structure Consistent (order : List FlagBase) (r : Registry Formatter) : Prop where
  names : ∀ name flag, r.flags name = some flag →
    flag.name = name ∧ isValidFlagName name = true ∧ name ≠ kBuiltinHelpName
  entries_iff : ∀ flag, (r.entries flag).isSome = true ↔ r.flags flag.name = some flag
  negation : ∀ name flag, r.flags name = some flag → flag.typeName = boolTypeName →
    r.flags (kNegationPrefix ++ name) = none
  order_iff : ∀ flag, flag ∈ order ↔ (r.entries flag).isSome = true
  increasing : order.Pairwise fun first second => ∀ entry ∈ r.entries first,
    ∀ entry' ∈ r.entries second, entry.registration < entry'.registration
  next : ∀ flag, ∀ entry ∈ r.entries flag, entry.registration < r.nextRegistration
  displays : ∀ name, (r.flagDisplays name).isSome = true → (r.flags name).isSome = true
  formatters : ∀ name, (r.flagHelpFormatters name).isSome = true → (r.flags name).isSome = true
  entries : ∀ flag, ∀ entry ∈ r.entries flag, EntryOk r entry
  declarations : ∀ d ∈ r.declarations, ∀ flag ∈ r.flags d.1, d.2.type = flag.typeName
  moduleOrder : r.moduleOrder.Nodup ∧
    ∀ name, name ∈ r.moduleOrder ↔ (r.modules name).isSome = true

theorem consistent_empty : Consistent [] (Registry.empty : Registry Formatter) where
  names := nofun
  entries_iff := fun _ => ⟨nofun, nofun⟩
  negation := nofun
  order_iff := fun _ => ⟨nofun, nofun⟩
  increasing := .nil
  next := nofun
  displays := nofun
  formatters := nofun
  entries := nofun
  declarations := nofun
  moduleOrder := ⟨.nil, fun _ => ⟨nofun, nofun⟩⟩

/-- Two flags of the same registration number are the same. -/
theorem Consistent.registration_injective {order : List FlagBase} (h : Consistent order r)
    {first second : FlagBase} {entry entry' : FlagEntry} (hfirst : r.entries first = some entry)
    (hsecond : r.entries second = some entry')
    (heq : entry.registration = entry'.registration) : first = second := by
  by_contra hne
  have hsymm : Std.Symm fun first second => ∀ entry ∈ r.entries first,
      ∀ entry' ∈ r.entries second, entry.registration ≠ entry'.registration :=
    ⟨fun _ _ hne entry he entry' he' => (hne entry' he' entry he).symm⟩
  have hdistinct := h.increasing.imp fun hlt entry he entry' he' =>
    Nat.ne_of_lt (hlt entry he entry' he')
  have hmem (flag : FlagBase) {entry : FlagEntry} (he : r.entries flag = some entry) :
      flag ∈ order := (h.order_iff flag).mpr (he ▸ rfl)
  exact hdistinct.forall (hmem first hfirst) (hmem second hsecond) hne entry hfirst entry' hsecond
    heq

/-! ### Registration -/

/-- What the checks of a new flag against the others have excluded. -/
theorem checkNegation_eq_ok {flag : FlagBase} (h : r.checkNegation flag = .ok ()) :
    (flag.typeName = boolTypeName → r.flags (kNegationPrefix ++ flag.name) = none) ∧
      ∀ name negated, flag.name = kNegationPrefix ++ name → r.flags name = some negated →
        negated.typeName ≠ boolTypeName := by
  simp only [Registry.checkNegation, bind, Except.bind, throw, throwThe, MonadExceptOf.throw,
    pure, Except.pure] at h
  refine ⟨fun hbool => ?_, fun name negated hname hnegated htype => ?_⟩
  · rw [if_pos hbool] at h
    rcases hnone : r.flags (kNegationPrefix ++ flag.name) with _ | negation
    · rfl
    · rw [hnone] at h
      cases h
  · have hdrop : flag.name.drop kNegationPrefix.length = name := by rw [hname, List.drop_left]
    have hprefix : kNegationPrefix.isPrefixOf flag.name = true :=
      hname ▸ List.isPrefixOf_iff_prefix.mpr (List.prefix_append ..)
    rw [if_pos hprefix, hdrop, hnegated] at h
    simp only [htype, if_true] at h
    split at h
    · split at h <;> cases h
    · cases h

/-- What `RegisterFlag` has checked when it returns, and what it has done. -/
theorem registerFlag_eq_ok {flag : FlagBase} {registration : ProcessFlagRegistration}
    (h : r.registerFlag flag registration = .ok r') :
    (r.entries flag).isSome = false ∧ isValidFlagName flag.name = true ∧
      flag.name ≠ kBuiltinHelpName ∧ r.checkNegation flag = .ok () ∧ r.flags flag.name = none ∧
      (∀ d ∈ r.declarations, d.1 = flag.name → d.2.type = flag.typeName) ∧
      r' = { r with
        flags := Function.update r.flags flag.name (some flag)
        entries := Function.update r.entries flag (some ⟨r.nextRegistration, [], [], none⟩)
        nextRegistration := r.nextRegistration + 1 } := by
  simp only [Registry.registerFlag, bind, Except.bind, throw, throwThe, MonadExceptOf.throw,
    pure, Except.pure] at h
  split at h
  · cases h
  rename_i hentry
  split at h
  · cases h
  rename_i hvalid
  split at h
  · cases h
  rename_i hhelp
  rcases hcheck : r.checkNegation flag with _ | _ <;> simp only [hcheck] at h
  · cases h
  rcases hflag : r.flags flag.name with _ | previous <;> simp only [hflag] at h
  swap
  · cases h
  split at h
  · cases h
  split at h
  · cases h
  rcases hdeclared : r.declarations.find? (fun d =>
    decide (d.1 = flag.name ∧ d.2.type ≠ flag.typeName)) with _ | d <;> simp only [hdeclared] at h
  swap
  · cases h
  refine ⟨by simpa using hentry, by simpa using hvalid, hhelp, rfl, rfl, fun d hd hname => ?_,
    (Except.ok.inj h).symm⟩
  have := List.find?_eq_none.mp hdeclared d hd
  simpa [hname] using this

theorem consistent_registerFlag {order : List FlagBase} {flag : FlagBase}
    {registration : ProcessFlagRegistration} (h : Consistent order r)
    (hok : r.registerFlag flag registration = .ok r') : Consistent (order ++ [flag]) r' := by
  obtain ⟨hentry, hvalid, hhelp, hcheck, hflag, hdeclared, rfl⟩ := registerFlag_eq_ok hok
  obtain ⟨hnegation, hnegated⟩ := checkNegation_eq_ok hcheck
  have hfresh {name : Text} {other : FlagBase} (hname : r.flags name = some other) :
      name ≠ flag.name := fun heq => by cases (heq ▸ hname).symm.trans hflag
  have hentryOther {other : FlagBase} {entry : FlagEntry} (he : r.entries other = some entry) :
      other ≠ flag := fun heq => by
    rw [heq] at he
    rw [he] at hentry
    cases hentry
  have hnew (other : FlagBase) (hmem : other ∈ order) : other ≠ flag := by
    obtain ⟨entry, he⟩ := Option.isSome_iff_exists.mp ((h.order_iff other).mp hmem)
    exact hentryOther he
  refine ⟨?_, ?_, ?_, ?_, ?_, ?_, ?_, ?_, ?_, ?_, h.moduleOrder⟩
  · intro name other hother
    rcases update_some_eq_some.mp hother with ⟨rfl, rfl⟩ | ⟨-, hother⟩
    · exact ⟨rfl, hvalid, hhelp⟩
    · exact h.names name other hother
  · intro other
    rw [isSome_update_some, update_some_eq_some, h.entries_iff]
    constructor
    · rintro (rfl | hother)
      · exact .inl ⟨rfl, rfl⟩
      · exact .inr ⟨hfresh hother, hother⟩
    · rintro (⟨-, rfl⟩ | ⟨-, hother⟩)
      · exact .inl rfl
      · exact .inr hother
  · intro name other hother hbool
    rw [update_some_eq_none]
    rcases update_some_eq_some.mp hother with ⟨rfl, rfl⟩ | ⟨-, hother⟩
    · refine ⟨fun heq => ?_, hnegation hbool⟩
      have := congrArg List.length heq
      rw [List.length_append] at this
      exact absurd this (by simp [kNegationPrefix, bytes])
    · exact ⟨fun heq => hnegated name other heq.symm hother hbool,
        h.negation name other hother hbool⟩
  · intro other
    rw [isSome_update_some, List.mem_append, List.mem_singleton, h.order_iff, or_comm]
  · refine List.pairwise_append.mpr ⟨?_, List.pairwise_singleton .., ?_⟩
    · refine h.increasing.imp_of_mem fun {first second} hfirst hsecond hlt entry he entry' he' => ?_
      rcases update_some_eq_some.mp he with ⟨rfl, -⟩ | ⟨-, he⟩
      · exact absurd rfl (hnew _ hfirst)
      rcases update_some_eq_some.mp he' with ⟨rfl, -⟩ | ⟨-, he'⟩
      · exact absurd rfl (hnew _ hsecond)
      exact hlt entry he entry' he'
    · intro first hfirst second hsecond entry he entry' he'
      obtain rfl := List.mem_singleton.mp hsecond
      rcases update_some_eq_some.mp he with ⟨rfl, -⟩ | ⟨-, he⟩
      · exact absurd rfl (hnew _ hfirst)
      rcases update_some_eq_some.mp he' with ⟨-, rfl⟩ | ⟨hne, -⟩
      · exact h.next first entry he
      · exact absurd rfl hne
  · intro other entry he
    rcases update_some_eq_some.mp he with ⟨-, rfl⟩ | ⟨-, he⟩
    · exact Nat.lt_succ_self _
    · exact Nat.lt_succ_of_lt (h.next other entry he)
  · exact fun name hname => isSome_update_some.mpr (.inr (h.displays name hname))
  · exact fun name hname => isSome_update_some.mpr (.inr (h.formatters name hname))
  · intro other entry he
    rcases update_some_eq_some.mp he with ⟨-, rfl⟩ | ⟨-, he⟩
    · exact .inl ⟨rfl, rfl, rfl⟩
    · exact h.entries other entry he
  · intro d hd other hother
    rcases update_some_eq_some.mp hother with ⟨hname, rfl⟩ | ⟨-, hother⟩
    · exact hdeclared d hd hname
    · exact h.declarations d hd other hother

/-- `UnregisterFlag` takes a registered flag out of every table. -/
theorem unregisterFlag_eq {order : List FlagBase} {flag : FlagBase} (h : Consistent order r)
    (hentry : (r.entries flag).isSome = true) :
    r.unregisterFlag flag = { r with
      entries := Function.update r.entries flag none
      flags := Function.update r.flags flag.name none
      flagHelpFormatters := Function.update r.flagHelpFormatters flag.name none
      flagDisplays := Function.update r.flagDisplays flag.name none } := by
  have hsome : ¬(r.entries flag).isNone = true := by
    rw [Option.isNone_iff_eq_none]
    exact Option.isSome_iff_ne_none.mp hentry
  rw [Registry.unregisterFlag, if_neg hsome]
  exact if_pos ((h.entries_iff flag).mp hentry)

theorem consistent_unregisterFlag {order : List FlagBase} (flag : FlagBase)
    (h : Consistent order r) : Consistent (order.erase flag) (r.unregisterFlag flag) := by
  by_cases hentry : (r.entries flag).isSome = true
  swap
  · have hmem : flag ∉ order := fun hmem => hentry ((h.order_iff flag).mp hmem)
    rwa [List.erase_of_not_mem hmem, Registry.unregisterFlag, if_pos (by simpa using hentry)]
  rw [unregisterFlag_eq h hentry]
  have hnodup : order.Nodup := by
    refine h.increasing.imp_of_mem fun {first second} hfirst _ hlt heq => ?_
    subst heq
    obtain ⟨entry, he⟩ := Option.isSome_iff_exists.mp ((h.order_iff first).mp hfirst)
    exact Nat.lt_irrefl _ (hlt entry he entry he)
  have hname {other : FlagBase} (hother : r.flags other.name = some other) :
      other.name ≠ flag.name ↔ other ≠ flag := by
    refine not_congr ⟨fun heq => ?_, congrArg _⟩
    rw [heq, (h.entries_iff flag).mp hentry] at hother
    exact (Option.some.inj hother).symm
  refine ⟨?_, ?_, ?_, ?_, ?_, ?_, ?_, ?_, ?_, ?_, h.moduleOrder⟩
  · exact fun name other hother => h.names name other (update_none_eq_some.mp hother).2
  · intro other
    rw [isSome_update_none, update_none_eq_some, h.entries_iff]
    exact and_congr_left fun hother => (hname hother).symm
  · intro name other hother hbool
    exact update_none_eq_none.mpr
      (.inr (h.negation name other (update_none_eq_some.mp hother).2 hbool))
  · intro other
    rw [isSome_update_none, hnodup.mem_erase_iff, h.order_iff]
  · refine (h.increasing.sublist List.erase_sublist).imp fun hlt entry he entry' he' => ?_
    exact hlt entry (update_none_eq_some.mp he).2 entry' (update_none_eq_some.mp he').2
  · exact fun other entry he => h.next other entry (update_none_eq_some.mp he).2
  · intro name hdisplay
    have := isSome_update_none.mp hdisplay
    exact isSome_update_none.mpr ⟨this.1, h.displays name this.2⟩
  · intro name hformatter
    have := isSome_update_none.mp hformatter
    exact isSome_update_none.mpr ⟨this.1, h.formatters name this.2⟩
  · exact fun other entry he => h.entries other entry (update_none_eq_some.mp he).2
  · exact fun d hd other hother => h.declarations d hd other (update_none_eq_some.mp hother).2

/-! ### Declarations -/

theorem consistent_declare {order : List FlagBase} {declaration : Identity}
    {name type filename : Text} (h : Consistent order r)
    (hok : r.declare declaration name type filename = .ok r') : Consistent order r' := by
  simp only [Registry.declare, bind, Except.bind, throw, throwThe, MonadExceptOf.throw, pure,
    Except.pure] at hok
  have hnew : (∀ flag ∈ r.flags name, type = flag.typeName) ∧ r' = { r with
      declarations := r.declarations ++ [(name, ⟨declaration, type, filename⟩)] } := by
    rcases hflag : r.flags name with _ | definition <;> simp only [hflag] at hok
    · exact ⟨nofun, (Except.ok.inj hok).symm⟩
    · split at hok
      · cases hok
      · rename_i htype
        refine ⟨fun flag hmem => ?_, (Except.ok.inj hok).symm⟩
        obtain rfl := Option.some.inj hmem
        exact (not_not.mp htype).symm
  obtain ⟨htype, rfl⟩ := hnew
  exact { h with declarations := List.forall_mem_append.mpr ⟨h.declarations,
    List.forall_mem_singleton.mpr htype⟩ }

theorem consistent_undeclare {order : List FlagBase} (declaration : Identity)
    (h : Consistent order r) : Consistent order (r.undeclare declaration) :=
  { h with declarations := fun d hd => h.declarations d (List.mem_of_mem_eraseP hd) }

/-! ### Modules and groups -/

/-- The new modules hold those of the entries. -/
theorem Consistent.of_modules {order : List FlagBase} (h : Consistent order r)
    {modules : Text → Option ModuleInfo} {moduleOrder : List Text}
    (horder : moduleOrder.Nodup ∧ ∀ name, name ∈ moduleOrder ↔ (modules name).isSome = true)
    (hmodules : ∀ name info, r.modules name = some info → ∃ info', modules name = some info' ∧
      info'.identity = info.identity ∧ ∀ group ∈ info.groups, group ∈ info'.groups) :
    Consistent order { r with modules := modules, moduleOrder := moduleOrder } := by
  refine { h with entries := fun flag entry he => ?_, moduleOrder := horder }
  rcases h.entries flag entry he with hnone | ⟨info, hinfo, hidentity, hmodule, hgroup, hmem⟩
  · exact .inl hnone
  · obtain ⟨info', hinfo', heq, hgroups⟩ := hmodules _ _ hinfo
    obtain ⟨group, hg, hname⟩ := hmem
    exact .inr ⟨info', hinfo', heq ▸ hidentity, hmodule, hgroup, group, hgroups group hg, hname⟩

theorem consistent_createModule {order : List FlagBase} {name header environmentPrefix : Text}
    {identity : Identity} {m : FlagModule} (h : Consistent order r)
    (hok : r.createModule name header environmentPrefix identity = .ok (m, r')) :
    Consistent order r' := by
  rw [Registry.createModule] at hok
  split at hok
  · cases hok
    exact h
  split at hok
  · cases hok
  rename_i hname hmodule
  cases hok
  have hnew : name ∉ r.moduleOrder := fun hmem => hmodule ((h.moduleOrder.2 name).mp hmem)
  refine h.of_modules ⟨?_, fun other => ?_⟩ fun other info hinfo => ⟨info, ?_, rfl, fun _ => id⟩
  · exact List.nodup_append.mpr ⟨h.moduleOrder.1, List.nodup_singleton _, fun a ha b hb heq =>
      hnew (List.mem_singleton.mp hb ▸ heq ▸ ha)⟩
  · rw [isSome_update_some, List.mem_append, List.mem_singleton, h.moduleOrder.2, or_comm]
  · refine update_some_eq_some.mpr (.inr ⟨fun heq => hmodule ?_, hinfo⟩)
    rw [← heq, hinfo]
    rfl

theorem findModule_eq_some {name : Text} {identity : Option Identity} {info : ModuleInfo} :
    r.findModule name identity = some info ↔
      r.modules name = some info ∧ identity = some info.identity := by
  rw [Registry.findModule, Option.filter_eq_some_iff, decide_eq_true_iff, eq_comm (b := identity)]

theorem registration_detach (identity : Identity) (entry : FlagEntry) :
    (Registry.detach identity entry).registration = entry.registration := by
  rw [Registry.detach]
  split <;> rfl

/-- A flag that stays in a group is not in the module that goes. -/
theorem entryOk_detach {entry : FlagEntry} {name : Text} {info : ModuleInfo}
    (hinfo : r.modules name = some info) (h : EntryOk r entry) {moduleOrder : List Text}
    {entries : FlagBase → Option FlagEntry} :
    EntryOk { r with
      modules := Function.update r.modules name none
      moduleOrder := moduleOrder
      entries := entries } (Registry.detach info.identity entry) := by
  rw [Registry.detach]
  split
  · exact .inl ⟨rfl, rfl, rfl⟩
  · rename_i hidentity
    rcases h with hnone | ⟨info', hinfo', hidentity', hmodule, hgroup⟩
    · exact .inl hnone
    · refine .inr ⟨info', update_none_eq_some.mpr ⟨fun heq => hidentity ?_, hinfo'⟩, hidentity',
        hmodule, hgroup⟩
      rw [heq, hinfo] at hinfo'
      rw [hidentity', Option.some.inj hinfo']

theorem consistent_destroyModule {order : List FlagBase} (m : FlagModule)
    (h : Consistent order r) : Consistent order (r.destroyModule m) := by
  rw [Registry.destroyModule]
  split
  · exact h
  split
  · exact h
  rename_i hname hfound
  rw [Option.isNone_iff_eq_none] at hfound
  obtain ⟨info, hinfo⟩ := Option.ne_none_iff_exists'.mp hfound
  obtain ⟨hinfo, hidentity⟩ := findModule_eq_some.mp hinfo
  have hentry {flag : FlagBase} {entry : FlagEntry}
      (he : (r.entries flag).map (Registry.detach m.identity) = some entry) :
      ∃ entry', r.entries flag = some entry' ∧ entry = Registry.detach info.identity entry' := by
    obtain ⟨entry', he', rfl⟩ := Option.map_eq_some_iff.mp he
    exact ⟨entry', he', by rw [Option.some.inj hidentity]⟩
  refine { h with
    entries_iff := ?_, order_iff := ?_, increasing := ?_, next := ?_, entries := ?_,
    moduleOrder := ?_ }
  · intro flag
    rw [Option.isSome_map]
    exact h.entries_iff flag
  · intro flag
    rw [Option.isSome_map]
    exact h.order_iff flag
  · refine h.increasing.imp fun hlt entry he entry' he' => ?_
    obtain ⟨first, hfirst, rfl⟩ := hentry he
    obtain ⟨second, hsecond, rfl⟩ := hentry he'
    rw [registration_detach, registration_detach]
    exact hlt first hfirst second hsecond
  · intro flag entry he
    obtain ⟨entry', he', rfl⟩ := hentry he
    rw [registration_detach]
    exact h.next flag entry' he'
  · intro flag entry he
    obtain ⟨entry', he', rfl⟩ := hentry he
    exact entryOk_detach hinfo (h.entries flag entry' he')
  · refine ⟨h.moduleOrder.1.filter _, fun name => ?_⟩
    rw [List.mem_filter, h.moduleOrder.2, isSome_update_none, and_comm, decide_eq_true_iff]

theorem consistent_addGroup {order : List FlagBase} (m : FlagModule) (name : Text)
    (identity : Identity) (h : Consistent order r) :
    Consistent order (r.addGroup m name identity).2 := by
  rw [Registry.addGroup]
  split
  · exact h
  split
  · exact h
  split
  · exact h
  rename_i info hfound hname _ hgroup
  obtain ⟨hinfo, -⟩ := findModule_eq_some.mp hfound
  refine h.of_modules ⟨h.moduleOrder.1, fun other => ?_⟩ fun other info' hinfo' => ?_
  · rw [isSome_update_some, h.moduleOrder.2, or_iff_right_of_imp]
    rintro rfl
    rw [hinfo]
    rfl
  · by_cases heq : other = m.name
    · subst heq
      obtain rfl := Option.some.inj (hinfo.symm.trans hinfo')
      exact ⟨_, update_some_eq_some.mpr (.inl ⟨rfl, rfl⟩), rfl,
        fun group hg => List.mem_append_left _ hg⟩
    · exact ⟨info', update_some_eq_some.mpr (.inr ⟨heq, hinfo'⟩), rfl, fun _ => id⟩

/-- What `AddFlag` does: nothing, or it gives the entry of the flag its module and group. -/
theorem addFlag_eq_ok {group : FlagGroup} {flag : FlagBase} {environment : Text → Option Text}
    {trustsEnvironment accepted : Bool} {default : Option Text}
    (hok : r.addFlag group flag environment trustsEnvironment = .ok (accepted, default, r')) :
    (accepted = false ∧ r' = r) ∨ (accepted = true ∧ ∃ entry info,
      r.entries flag = some entry ∧ r.modules group.module = some info ∧
        group.moduleIdentity = some info.identity ∧ group.module ≠ [] ∧ group.name ≠ [] ∧
        (∃ candidate ∈ info.groups, candidate.name = group.name) ∧
        r' = { r with
          entries := Function.update r.entries flag
            (some ⟨entry.registration, group.module, group.name, group.moduleIdentity⟩) }) := by
  rw [Registry.addFlag] at hok
  split at hok
  · cases hok
    exact .inl ⟨rfl, rfl⟩
  split at hok
  · cases hok
    exact .inl ⟨rfl, rfl⟩
  split at hok
  · cases hok
  rename_i info hfound hgroup _ entry hentry
  dsimp only at hok
  split at hok
  · cases hok
    exact .inl ⟨rfl, rfl⟩
  rename_i hany
  cases hok
  obtain ⟨hinfo, hidentity⟩ := findModule_eq_some.mp hfound
  simp only [not_or] at hgroup hany
  obtain ⟨candidate, hmem, hcandidate, -⟩ : ∃ candidate ∈ info.groups,
      candidate.name = group.name ∧ some candidate.identity = group.identity := by
    simpa using hany.1
  exact .inr ⟨rfl, entry, info, hentry, hinfo, hidentity, hgroup.2.1, hgroup.1,
    ⟨candidate, hmem, hcandidate⟩, rfl⟩

theorem consistent_addFlag {order : List FlagBase} {group : FlagGroup} {flag : FlagBase}
    {environment : Text → Option Text} {trustsEnvironment accepted : Bool} {default : Option Text}
    (h : Consistent order r)
    (hok : r.addFlag group flag environment trustsEnvironment = .ok (accepted, default, r')) :
    Consistent order r' := by
  rcases addFlag_eq_ok hok with ⟨-, rfl⟩ | ⟨-, entry, info, hentry, hinfo, hidentity, hmodule,
    hname, hmem, rfl⟩
  · exact h
  have hold {other : FlagBase} {entry' : FlagEntry} (he : Function.update r.entries flag
      (some ⟨entry.registration, group.module, group.name, group.moduleIdentity⟩) other =
        some entry') :
      ∃ old, r.entries other = some old ∧ entry'.registration = old.registration := by
    rcases update_some_eq_some.mp he with ⟨rfl, rfl⟩ | ⟨-, he⟩
    · exact ⟨entry, hentry, rfl⟩
    · exact ⟨entry', he, rfl⟩
  have hkeys (other : FlagBase) : (Function.update r.entries flag
      (some ⟨entry.registration, group.module, group.name, group.moduleIdentity⟩)
        other).isSome = true ↔ (r.entries other).isSome = true := by
    rw [isSome_update_some, or_iff_right_of_imp]
    rintro rfl
    rw [hentry]
    rfl
  refine { h with
    entries_iff := ?_, order_iff := ?_, increasing := ?_, next := ?_, entries := ?_ }
  · exact fun other => (hkeys other).trans (h.entries_iff other)
  · exact fun other => (h.order_iff other).trans (hkeys other).symm
  · refine h.increasing.imp fun hlt first he second he' => ?_
    obtain ⟨old, hold₁, heq⟩ := hold he
    obtain ⟨old', hold₂, heq'⟩ := hold he'
    rw [heq, heq']
    exact hlt old hold₁ old' hold₂
  · intro other first he
    obtain ⟨old, hold₁, heq⟩ := hold he
    rw [heq]
    exact h.next other old hold₁
  · intro other first he
    rcases update_some_eq_some.mp he with ⟨-, rfl⟩ | ⟨-, he⟩
    · exact .inr ⟨info, hinfo, hidentity, hmodule, hname, hmem⟩
    · exact h.entries other first he

/-! ### Help -/

theorem consistent_setFlagDisplay {order : List FlagBase} (flag : FlagBase)
    (type unit : Option Text) (h : Consistent order r) :
    Consistent order (r.setFlagDisplay flag type unit) := by
  rw [Registry.setFlagDisplay]
  split
  · exact h
  · rename_i hflag
    refine { h with displays := fun name hname => ?_ }
    rcases isSome_update_some.mp hname with rfl | hname
    · rw [not_not.mp hflag]
      rfl
    · exact h.displays name hname

theorem consistent_setFlagHelpFormatter {order : List FlagBase} (name : Text)
    (formatter : Option Formatter) (h : Consistent order r) :
    Consistent order (r.setFlagHelpFormatter name formatter).2 := by
  rw [Registry.setFlagHelpFormatter]
  split
  · exact h
  · rename_i hflag
    refine { h with formatters := fun other hother => ?_ }
    by_cases heq : other = name
    · subst heq
      exact Option.isSome_iff_ne_none.mpr fun hnone => hflag (Option.isNone_iff_eq_none.mpr hnone)
    · dsimp only at hother
      rw [Function.update_of_ne heq] at hother
      exact h.formatters other hother

/-! ### Options -/

/-- A valid name has no dash, so it is its own spelling. -/
theorem normalized_of_valid {name : Text} (h : isValidFlagName name = true) :
    Registry.normalized name = name := by
  have hall : ∀ c ∈ name, c ≠ dash := by
    cases name with
    | nil => exact nofun
    | cons first rest =>
      rw [isValidFlagName, Bool.and_eq_true, List.all_eq_true] at h
      intro c hc hdash
      have hno : ¬(isAlnum dash || dash == underscore) = true := by decide
      exact hno (hdash ▸ h.2 c hc)
  refine (List.map_congr_left fun c hc => ?_).trans (List.map_id name)
  exact if_neg (hall c hc)

theorem normalized_of_not_mem {name : Text} (h : dash ∉ name) :
    Registry.normalized name = name := by
  refine (List.map_congr_left fun c hc => ?_).trans (List.map_id name)
  refine if_neg fun heq => h ?_
  rwa [heq] at hc

/-- An option selects the flag of the name that is spelled with `'_'` throughout. -/
theorem findFlagLocked_eq {order : List FlagBase} (h : Consistent order r) (name : Text) :
    r.findFlagLocked name = r.flags (Registry.normalized name) := by
  rw [Registry.findFlagLocked]
  split
  · rename_i direct hdirect
    rw [normalized_of_valid (h.names name direct hdirect).2.1, hdirect]
  · rename_i hnone
    split
    · rfl
    · rename_i hdash
      rw [normalized_of_not_mem hdash, hnone]

theorem findNegatedLocked_eq {order : List FlagBase} (h : Consistent order r) {name : Text}
    {flag : FlagBase} (hnegated : r.findNegatedLocked name = some flag) :
    ∃ rest, name = kNegationPrefix ++ rest ∧ r.flags (Registry.normalized rest) = some flag := by
  rw [Registry.findNegatedLocked] at hnegated
  split at hnegated
  · rename_i hprefix
    obtain ⟨rest, rfl⟩ := List.isPrefixOf_iff_prefix.mp hprefix
    rw [List.drop_left, findFlagLocked_eq h] at hnegated
    exact ⟨rest, rfl, hnegated⟩
  · cases hnegated

/-- An option that selects a flag does not negate a Boolean flag. -/
theorem findNegatedLocked_of_findFlagLocked {order : List FlagBase} (h : Consistent order r)
    {option : Text} {flag negated : FlagBase} (hflag : r.findFlagLocked option = some flag)
    (hnegated : r.findNegatedLocked option = some negated) : negated.typeName ≠ boolTypeName := by
  intro hbool
  obtain ⟨rest, rfl, hrest⟩ := findNegatedLocked_eq h hnegated
  have hprefix : Registry.normalized (kNegationPrefix ++ rest) =
      kNegationPrefix ++ Registry.normalized rest := List.map_append
  rw [findFlagLocked_eq h, hprefix, h.negation _ negated hrest hbool] at hflag
  cases hflag

/-! ### Runs -/

theorem step_eq_some {c : Call Formatter} :
    step r c = some r' ↔ ∃ result, call r c = .ok (result, r') := by
  rw [step]
  split
  · rename_i result r₁ heq
    simp [heq]
  · rename_i abort heq
    simp [heq]

/-- The results that say that a call has done nothing. -/
def Refused : Result → Prop
  | .accepted accepted => accepted = false
  | .group group => group = .invalid
  | _ => False

/-- Every call that does not abort keeps the tables in agreement. -/
theorem consistent_step {order : List FlagBase} {c : Call Formatter} {result : Result}
    (h : Consistent order r) (hcall : call r c = .ok (result, r')) :
    Consistent (applyRegistration order c) r' := by
  cases c with
  | registerFlag flag registration =>
    rcases hok : r.registerFlag flag registration with _ | r₁ <;> rw [call, hok] at hcall
    · cases hcall
    · cases hcall
      exact consistent_registerFlag h hok
  | unregisterFlag flag =>
    cases hcall
    exact consistent_unregisterFlag flag h
  | declare declaration name type filename =>
    rcases hok : r.declare declaration name type filename with _ | r₁ <;> rw [call, hok] at hcall
    · cases hcall
    · cases hcall
      exact consistent_declare h hok
  | undeclare declaration =>
    cases hcall
    exact consistent_undeclare declaration h
  | createModule name header environmentPrefix identity =>
    rcases hok : r.createModule name header environmentPrefix identity with _ | ⟨m, r₁⟩ <;>
      rw [call, hok] at hcall
    · cases hcall
    · cases hcall
      exact consistent_createModule h hok
  | destroyModule m =>
    cases hcall
    exact consistent_destroyModule m h
  | addGroup m name identity =>
    cases hcall
    exact consistent_addGroup m name identity h
  | addFlag group flag environment trustsEnvironment =>
    rcases hok : r.addFlag group flag environment trustsEnvironment with _ | ⟨accepted, default, r₁⟩
      <;> rw [call, hok] at hcall
    · cases hcall
    · cases hcall
      exact consistent_addFlag h hok
  | setFlagDisplay flag type unit =>
    cases hcall
    exact consistent_setFlagDisplay flag type unit h
  | setFlagHelpFormatter name formatter =>
    cases hcall
    exact consistent_setFlagHelpFormatter name formatter h

/-- A call that is refused leaves the registry as it was. -/
theorem eq_of_refused {c : Call Formatter} {result : Result}
    (hcall : call r c = .ok (result, r')) (hrefused : Refused result) : r' = r := by
  cases c with
  | registerFlag flag registration =>
    rcases hok : r.registerFlag flag registration with _ | r₁ <;> rw [call, hok] at hcall <;>
      cases hcall
    cases hrefused
  | unregisterFlag flag =>
    cases hcall
    cases hrefused
  | declare declaration name type filename =>
    rcases hok : r.declare declaration name type filename with _ | r₁ <;>
      rw [call, hok] at hcall <;> cases hcall
    cases hrefused
  | undeclare declaration =>
    cases hcall
    cases hrefused
  | createModule name header environmentPrefix identity =>
    rcases hok : r.createModule name header environmentPrefix identity with _ | ⟨m, r₁⟩ <;>
      rw [call, hok] at hcall <;> cases hcall
    cases hrefused
  | destroyModule m =>
    cases hcall
    cases hrefused
  | addGroup m name identity =>
    cases hcall
    change (r.addGroup m name identity).1 = .invalid at hrefused
    change (r.addGroup m name identity).2 = r
    rw [Registry.addGroup] at hrefused ⊢
    split
    · rfl
    split
    · rfl
    split
    · rfl
    · rename_i hfound hname _ hgroup
      simp only [hfound, if_neg hname, hgroup] at hrefused
      cases congrArg FlagGroup.moduleIdentity hrefused
  | addFlag group flag environment trustsEnvironment =>
    rcases hok : r.addFlag group flag environment trustsEnvironment with _ | ⟨accepted, default, r₁⟩
      <;> rw [call, hok] at hcall
    · cases hcall
    · cases hcall
      rcases addFlag_eq_ok hok with ⟨-, heq⟩ | ⟨haccepted, -⟩
      · exact heq
      · cases hrefused.symm.trans haccepted
  | setFlagDisplay flag type unit =>
    cases hcall
    cases hrefused
  | setFlagHelpFormatter name formatter =>
    cases hcall
    change (r.setFlagHelpFormatter name formatter).1 = false at hrefused
    change (r.setFlagHelpFormatter name formatter).2 = r
    rw [Registry.setFlagHelpFormatter] at hrefused ⊢
    split
    · rfl
    · rename_i hflag
      rw [if_neg hflag] at hrefused
      cases hrefused

/-- The tables agree after every sequence of calls that does not abort the process, the flags have
different registration numbers, no option selects a flag and negates another one, and a call that is
refused changes nothing. -/
theorem registry_consistent (calls : List (Call Formatter)) (r : Registry Formatter)
    (hrun : run step Registry.empty calls = some r) :
    Consistent (registrationOrder calls) r ∧
      (∀ first second entry entry', r.entries first = some entry →
        r.entries second = some entry' → entry.registration = entry'.registration →
          first = second) ∧
      (∀ option flag negated, r.findFlagLocked option = some flag →
        r.findNegatedLocked option = some negated → negated.typeName ≠ boolTypeName) ∧
      ∀ c result r', call r c = .ok (result, r') → Refused result → r' = r := by
  have h : Consistent (registrationOrder calls) r := by
    refine Transition.run_history (H := fun hist r => Consistent (registrationOrder hist) r)
      (fun hist s c s' hs hstep => ?_)
      (show Consistent (registrationOrder []) Registry.empty from consistent_empty) hrun
    obtain ⟨result, hcall⟩ := step_eq_some.mp hstep
    rw [registrationOrder, List.foldl_append]
    exact consistent_step hs hcall
  exact ⟨h, fun _ _ _ _ => h.registration_injective,
    fun _ _ _ => findNegatedLocked_of_findFlagLocked h, fun _ _ _ => eq_of_refused⟩

/-- A Boolean flag that is declared before it is registered. -/
def verboseFlag : FlagBase := ⟨1, bytes "verbose", boolTypeName, bytes "main.cc"⟩

/-- A flag that is put into a group of a module, which is then destroyed and created again. -/
def limitFlag : FlagBase := ⟨2, bytes "limit", bytes "int32", bytes "main.cc"⟩

/-- Calls of each kind, none of which aborts the process. -/
def someCalls : List (Call Unit) :=
  [.declare 7 (bytes "verbose") boolTypeName (bytes "other.cc"),
    .registerFlag verboseFlag .registered, .registerFlag limitFlag .registered,
    .createModule (bytes "net") [] [] 3, .addGroup ⟨bytes "net", 3⟩ (bytes "io") 4,
    .addFlag ⟨bytes "net", bytes "io", some 3, some 4⟩ limitFlag (fun _ => none) false,
    .setFlagDisplay limitFlag (some (bytes "size")) none,
    .setFlagHelpFormatter (bytes "limit") (some ()), .destroyModule ⟨bytes "net", 3⟩,
    .createModule (bytes "net") [] [] 5, .undeclare 7, .unregisterFlag verboseFlag]

theorem registry_consistent_someCalls : ∃ r : Registry Unit,
    run step Registry.empty someCalls = some r ∧ Consistent [limitFlag] r := by
  have hrun : (run step Registry.empty someCalls).isSome = true := by decide
  obtain ⟨r, hrun⟩ := Option.isSome_iff_exists.mp hrun
  have horder : registrationOrder someCalls = [limitFlag] := by decide
  exact ⟨r, hrun, horder ▸ (registry_consistent someCalls r hrun).1⟩

end Flags

end NgLog
