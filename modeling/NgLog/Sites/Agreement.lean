import NgLog.Sites.States

/-!
# Calls agree on call sites and their states

Whatever the order in which the calls of any number of threads take their steps, two lookups return
the same site if and only if their locations are equal by content, and all calls return the one
state that a site has published for a type.

## Main definitions

* `Invariant`, `Phase.Known`, `Guarantee` — what is known of lookups and states together

## Main results

* `respects` — the calls do not disturb one another
* `sites_agree` — the answers of all calls in every run
-/

namespace NgLog

namespace Sites

variable {TypeInfo T Call : Type} {p : Platform TypeInfo T}

/-- The registry is in order. -/
structure Invariant (p : Platform TypeInfo T) (m : Memory TypeInfo T Call) : Prop where
  lookups : LookupInvariant p m
  states : StateInvariant p m

/-- What is known of a call. -/
def Phase.Known (p : Platform TypeInfo T) (call : Call) (m : Memory TypeInfo T Call) :
    Phase TypeInfo → Prop
  | .get phase => phase.Known p call m
  | .state phase => phase.Known p call m

/-- What a step of a call guarantees to the others. -/
structure Guarantee (p : Platform TypeInfo T) (call : Call) (m m' : Memory TypeInfo T Call) :
    Prop where
  lookups : LookupGuarantee call m m'
  states : StateGuarantee p call m m'

theorem invariant_empty : Invariant p (.empty : Memory TypeInfo T Call) where
  lookups := ⟨List.nodup_nil, fun _ _ h => by cases h⟩
  states := {
    impls := fun _ => siteInvariant_empty
    published := by
      rintro site type object (⟨i, slotType, hslot, -⟩ | hoverflow)
      · cases hslot
      · cases hoverflow
    destroyed := fun _ h => absurd h List.not_mem_nil
    nodup := List.nodup_nil }

variable {m m' : Memory TypeInfo T Call}

theorem LookupInvariant.of_frame (hm : LookupInvariant p m) (h : StateFrame m m') :
    LookupInvariant p m' where
  nodup := h.sites ▸ hm.nodup
  aliases i siteAlias halias := by
    rw [Memory.IsSiteOf, h.sites]
    exact hm.aliases i siteAlias (h.aliases ▸ halias)

theorem StateInvariant.of_frame (hm : StateInvariant p m) (h : GetFrame m m') :
    StateInvariant p m' where
  impls site := h.impls ▸ hm.impls site
  published site type object hpublished := by
    rw [Memory.Published, h.impls] at hpublished
    rw [h.constructions, h.destroyed]
    exact hm.published site type object hpublished
  destroyed object hobject := by
    rw [h.destroyed] at hobject
    rw [h.constructions]
    exact hm.destroyed object hobject
  nodup := h.destroyed ▸ hm.nodup

variable [DecidableEq T]

/-- The calls do not disturb one another. -/
theorem respects (p : Platform TypeInfo T) :
    Interference.Respects (code p : Interference.Code Call _ _ _) (Invariant p) (Phase.Known p)
      (Guarantee p) where
  enter call m request phase _ henter := by
    cases request with
    | get location =>
      cases henter
      exact trivial
    | state site type =>
      rw [code] at henter
      dsimp only at henter
      split_ifs at henter
      cases henter
      exact trivial
  next call m phase m' phase' hm hknown hnext := by
    cases phase with
    | get phase =>
      obtain ⟨⟨m₁, phase₁⟩, hget, heq⟩ := Option.map_eq_some_iff.mp hnext
      cases heq
      obtain ⟨hlookups, hknown, hguarantee, hframe⟩ := getNext_spec hm.lookups hknown hget
      exact ⟨⟨hlookups, hm.states.of_frame hframe⟩, hknown, hguarantee,
        .of_impls hframe.impls (hframe.constructions ▸ List.prefix_refl _) hframe.destroyed⟩
    | state phase =>
      obtain ⟨⟨m₁, phase₁⟩, hstate, heq⟩ := Option.map_eq_some_iff.mp hnext
      cases heq
      obtain ⟨hstates, hknown, hlookups, hguarantee, hframe⟩ :=
        stateNext_spec hm.states hknown hstate
      exact ⟨⟨hm.lookups.of_frame hframe, hstates⟩, hknown, hlookups, hguarantee⟩
  stable call other m m' phase hne _ hguarantee hknown := by
    cases phase with
    | get phase => exact GetPhase.Known.stable hne hguarantee.lookups hknown
    | state phase =>
      exact StatePhase.Known.stable hne hguarantee.states hguarantee.lookups hknown

omit [DecidableEq T] in
/-- A call that has returned has found the published state. If it has constructed one itself, that
is the published one, or has been destroyed once. -/
theorem StatePhase.Known.returned {call : Call} {site : ℕ} {type : TypeInfo}
    {constructed state : Option Object}
    (h : (StatePhase.returned site type constructed state).Known p call m) :
    ∃ object, state = some object ∧ m.Published p site (p.typeOf type) object ∧
      ∀ own, constructed = some own → m.constructions[own]? = some call ∧
        m.destroyed.count own = if own = object then 0 else 1 := by
  cases constructed with
  | none =>
    obtain ⟨object, hstate, hpublished⟩ := h
    exact ⟨object, hstate, hpublished, fun own hown => by cases hown⟩
  | some constructed =>
    obtain ⟨object, hstate, hpublished, hconstructed, hcount⟩ := h
    refine ⟨object, hstate, hpublished, fun own hown => ?_⟩
    cases hown
    exact ⟨hconstructed, hcount⟩

variable [DecidableEq Call]

/-- For all strings, types and hash values, any number of calls and every order of their steps: two
lookups return the same site if and only if the locations are equal by content. Every call for a
state returns the published state of the site and the type, which is never destroyed; all calls
return the same one; and a call that has constructed another state has destroyed it once. -/
theorem sites_agree (p : Platform TypeInfo T)
    {events : List (Interference.Event Call (Request TypeInfo))}
    {w : Interference.State Call (Memory TypeInfo T Call) (Phase TypeInfo)}
    (hrun : Transition.run (Interference.step (code p)) (.init .empty) events = some w) :
    (∀ call call' l l' site site', w.phase call = some (.get (.returned l site)) →
      w.phase call' = some (.get (.returned l' site')) → (site = site' ↔ p.SameSite l l')) ∧
    (∀ call site type constructed state,
      w.phase call = some (.state (.returned site type constructed state)) →
        ∃ object, state = some object ∧ w.shared.Published p site (p.typeOf type) object ∧
          object ∉ w.shared.destroyed ∧
          ∀ own, constructed = some own → w.shared.constructions[own]? = some call ∧
            w.shared.destroyed.count own = if own = object then 0 else 1) ∧
    ∀ call call' site type type' constructed constructed' state state',
      w.phase call = some (.state (.returned site type constructed state)) →
        w.phase call' = some (.state (.returned site type' constructed' state')) →
          p.typeOf type = p.typeOf type' → state = state' := by
  obtain ⟨hinvariant, hknown⟩ := Interference.holds_run (respects p)
    (Interference.holds_init invariant_empty) hrun
  refine ⟨fun call call' l l' site site' h h' => ?_, fun call site type constructed state h => ?_,
    fun call call' site type type' constructed constructed' state state' h h' htype => ?_⟩
  · exact sites_eq_iff hinvariant.lookups (hknown call _ h) (hknown call' _ h')
  · obtain ⟨object, hstate, hpublished, hown⟩ := StatePhase.Known.returned (hknown call _ h)
    exact ⟨object, hstate, hpublished,
      (hinvariant.states.published _ _ _ hpublished).2, hown⟩
  · obtain ⟨object, rfl, hpublished, -⟩ := StatePhase.Known.returned (hknown call _ h)
    obtain ⟨object', rfl, hpublished', -⟩ := StatePhase.Known.returned (hknown call' _ h')
    rw [Memory.Published, ← htype] at hpublished'
    rw [(hinvariant.states.impls site).unique hpublished hpublished']

/-- A program with a string at two addresses. -/
def twoPlatform : Platform ℕ ℕ where
  chars := fun _ => .ofString "site.h"
  typeOf := id
  width := 64
  hashPointer := BitVec.ofNat 64
  hashNumber := BitVec.ofNat 64

/-- Two calls for a site, by different addresses, and then two for a state, which both construct
it. -/
def twoEvents : List (Interference.Event ℕ (Request ℕ)) :=
  Interference.Event.enter 0 (.get ⟨0, 0, 7, 1⟩) :: List.replicate 6 (Interference.Event.next 0) ++
    Interference.Event.enter 1 (.get ⟨1, 1, 7, 1⟩) ::
      List.replicate 6 (Interference.Event.next 1) ++
    [Interference.Event.enter 2 (.state 0 5), .enter 3 (.state 0 5), .next 2, .next 3, .next 2,
      .next 3] ++
    List.replicate 6 (Interference.Event.next 2) ++ List.replicate 4 (Interference.Event.next 3)

theorem sites_agree_two : ∃ w, Transition.run (Interference.step (code twoPlatform))
      (.init .empty) twoEvents = some w ∧
    w.phase 0 = some (.get (.returned ⟨0, 0, 7, 1⟩ 0)) ∧
    w.phase 1 = some (.get (.returned ⟨1, 1, 7, 1⟩ 0)) ∧
    w.phase 2 = some (.state (.returned 0 5 (some 0) (some 0))) ∧
    w.phase 3 = some (.state (.returned 0 5 (some 1) (some 0))) ∧
    twoPlatform.SameSite ⟨0, 0, 7, 1⟩ ⟨1, 1, 7, 1⟩ ∧ w.shared.destroyed.count 1 = 1 := by
  obtain ⟨w, hrun, hfirst, hsecond, hkept, hlost⟩ : ∃ w,
      Transition.run (Interference.step (code twoPlatform)) (.init .empty) twoEvents = some w ∧
      w.phase 0 = some (.get (.returned ⟨0, 0, 7, 1⟩ 0)) ∧
      w.phase 1 = some (.get (.returned ⟨1, 1, 7, 1⟩ 0)) ∧
      w.phase 2 = some (.state (.returned 0 5 (some 0) (some 0))) ∧
      w.phase 3 = some (.state (.returned 0 5 (some 1) (some 0))) :=
    ⟨_, rfl, rfl, rfl, rfl, rfl⟩
  obtain ⟨hsites, hstates, -⟩ := sites_agree twoPlatform hrun
  obtain ⟨object, hstate, -, -, hown⟩ := hstates 3 0 5 (some 1) (some 0) hlost
  cases hstate
  exact ⟨w, hrun, hfirst, hsecond, hkept, hlost, (hsites 0 1 _ _ 0 0 hfirst hsecond).mp rfl,
    (hown 1 rfl).2⟩

end Sites

end NgLog
