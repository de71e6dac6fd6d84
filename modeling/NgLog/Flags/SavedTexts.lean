import NgLog.Flags.Objects
import NgLog.Flags.Traits

/-!
# All flags saved as text

`ScopedFlags<>` saves the text of every registered flag, and whether it was set explicitly. At its
end it reads the texts back into the flags that still have the registration with which they were
saved. A text that cannot be read aborts the process.

The setter of a flag takes every value of its type. So whether the end of the scope aborts depends
on the values that were set: it does not if and only if every saved value is read back from its
text. Among the built-in types only a file mode may fail to be.

## Main definitions

* `saveFlags`, `restoreFlags` — the constructor and the destructor of `ScopedFlags<>`
* `FlagType.Store` — the storages of the built-in types
* `RestoresFlags` — what the end of a scope should do

## Main results

* `saveFlags_spec` — what is saved
* `restoreFlags_cases` — the end of a scope restores what it can read, or aborts at what it cannot
* `restoresFlags_iff` — when the flags of the built-in types are restored
-/

namespace NgLog

namespace FlagObjects

open FlagValues (AtomicFlagValueStorage FileMode FlagType NumericPunctuation Operation Parse Refines
  Start Storage StringFlagValueStorage Values)

open Transition (run)

variable {ι : Type} {Value Store : ι → Type}

/-! ### The code -/

/-- `Flag<T>::RestoreFromString`. -/
def restoreFromString {T σ : Type} [Storage σ T] (parse : Parse T) (s : σ) (value : List Byte)
    (explicitlySet : Bool) : Option (σ × Bool) := do
  let (s, current) ← Storage.get s
  match parse value current with
  | none => return (s, false)
  | some parsed =>
    let s ← Storage.restore s parsed explicitlySet
    return (s, true)

/-- An element of the `values_` of `ScopedFlags<>`. -/
structure SavedText where
  address : Address
  registration : ℕ
  value : List Byte
  explicitlySet : Bool

/-- Whether a `RegisteredFlagLock` finds the flag that was saved. -/
def SavedText.Registered (saved : SavedText) (w : World Store) : Prop :=
  saved.registration = 0 ∨ w.entries saved.address = some saved.registration

instance decidableRegistered (saved : SavedText) (w : World Store) :
    Decidable (saved.Registered w) :=
  inferInstanceAs (Decidable (_ ∨ _))

section Code

variable [∀ i, Storage (Store i) (Value i)] (parse : ∀ i, Parse (Value i))
  (text : ∀ i, Value i → List Byte)

/-- One element of the loop of the constructor. -/
def saveFlag (w : World Store) (a : Address) : Option (World Store × SavedText) := do
  let object ← w.objects a
  let registration ← w.entries a
  let (s, value) ← Storage.get object.store
  let (s, explicitlySet) ← Storage.explicitlySet s
  return (w.setStore a object.type s, ⟨a, registration, text object.type value, explicitlySet⟩)

/-- The loop of the constructor. -/
def saveFlags (w : World Store) : List Address → Option (World Store × List SavedText)
  | [] => some (w, [])
  | a :: addresses => do
    let (w, saved) ← saveFlag text w a
    let (w, rest) ← saveFlags w addresses
    return (w, saved :: rest)

/-- The constructor of `ScopedFlags<>`. -/
def constructScope (w : World Store) : Option (World Store × List SavedText) :=
  saveFlags text w (w.flags.map Prod.snd)

/-- The destructor of `ScopedFlags<>`, which may abort the process at a flag. -/
def restoreFlags (w : World Store) : List SavedText → Option (Except Address (World Store))
  | [] => some (.ok w)
  | saved :: rest =>
    if saved.Registered w then do
      let object ← w.objects saved.address
      let (s, restored) ←
        restoreFromString (parse object.type) object.store saved.value saved.explicitlySet
      if restored then restoreFlags (w.setStore saved.address object.type s) rest
      else return .error saved.address
    else restoreFlags w rest

end Code

/-! ### What is saved -/

section Saving

variable [DecidableEq ι] [∀ i, Storage (Store i) (Value i)]
  {R : ∀ i, Store i → Values (Value i) → Prop} (hR : ∀ i, Refines (Store i) (R i))
  {parse : ∀ i, Parse (Value i)} {text : ∀ i, Value i → List Byte} {w : World Store}

/-- What is saved of a flag. -/
def Saves (R : ∀ i, Store i → Values (Value i) → Prop) (text : ∀ i, Value i → List Byte)
    (w : World Store) (a : Address) (saved : SavedText) : Prop :=
  ∃ type t r, w.Holds R a type t ∧ w.entries a = some r ∧
    saved = ⟨a, r, text type t.value, t.explicitlySet⟩

omit [∀ i, Storage (Store i) (Value i)] in
/-- Each saved flag is one of the flags, and each flag is saved. -/
theorem saves_mem {addresses : List Address} {saved : List SavedText}
    (h : List.Forall₂ (Saves R text w) addresses saved) :
    saved.map SavedText.address = addresses ∧ (∀ x ∈ saved, Saves R text w x.address x) ∧
      ∀ a ∈ addresses, ∃ x ∈ saved, Saves R text w a x := by
  induction h with
  | nil =>
    exact ⟨rfl, fun _ hx => absurd hx List.not_mem_nil, fun _ ha => absurd ha List.not_mem_nil⟩
  | @cons a x addresses saved hsaves _ ih =>
    obtain ⟨haddresses, hsaved, hmem⟩ := ih
    have haddress : x.address = a := by
      obtain ⟨_, _, _, _, _, rfl⟩ := hsaves
      rfl
    refine ⟨by rw [List.map_cons, haddress, haddresses], ?_, ?_⟩
    · exact List.forall_mem_cons.mpr ⟨haddress.symm ▸ hsaves, hsaved⟩
    · refine List.forall_mem_cons.mpr ⟨⟨x, List.mem_cons_self, hsaves⟩, fun b hb => ?_⟩
      obtain ⟨y, hy, hsaves⟩ := hmem b hb
      exact ⟨y, List.mem_cons_of_mem _ hy, hsaves⟩

/-- Two states in which all flags hold the same values under the same registrations. -/
structure SameFlags (R : ∀ i, Store i → Values (Value i) → Prop) (w w' : World Store) : Prop where
  holds : ∀ a type t, w.Holds R a type t → w'.Holds R a type t
  entries : w'.entries = w.entries
  flags : w'.flags = w.flags

omit [∀ i, Storage (Store i) (Value i)] in
theorem SameFlags.refl (w : World Store) : SameFlags R w w := ⟨fun _ _ _ => id, rfl, rfl⟩

omit [∀ i, Storage (Store i) (Value i)] in
theorem SameFlags.trans {w' w'' : World Store} (h : SameFlags R w w') (h' : SameFlags R w' w'') :
    SameFlags R w w'' :=
  ⟨fun a type t ht => h'.holds a type t (h.holds a type t ht), h'.entries.trans h.entries,
    h'.flags.trans h.flags⟩

omit [∀ i, Storage (Store i) (Value i)] in
/-- A storage that stands for the same values as before may take its place. -/
theorem sameFlags_setStore {a : Address} {type : ι} {s s' : Store type}
    (hs : w.store a type = some s) (ht : ∀ t, R type s t → R type s' t) :
    SameFlags R w (w.setStore a type s') where
  holds b type' t' := by
    rintro ⟨s₁, hs₁, ht₁⟩
    by_cases hb : b = a
    · subst hb
      obtain ⟨rfl, hsame⟩ := World.store_unique hs hs₁
      cases hsame
      exact ⟨s', World.store_setStore_self hs, ht t' ht₁⟩
    · exact ⟨s₁, by rw [World.store_setStore_of_ne hb, hs₁], ht₁⟩
  entries := rfl
  flags := rfl

variable (parse text)

include hR

/-- A registered flag is saved, and holds the same values afterwards. -/
theorem saveFlag_spec (hw : WellFormed R w) {a : Address} {type : ι} {t : Values (Value type)}
    {r : ℕ} (ht : w.Holds R a type t) (hr : w.entries a = some r) :
    ∃ w', saveFlag text w a = some (w', ⟨a, r, text type t.value, t.explicitlySet⟩) ∧
      WellFormed R w' ∧ SameFlags R w w' := by
  obtain ⟨s, hs, ht⟩ := ht
  obtain ⟨name, hobject⟩ := World.store_eq_some.mp hs
  obtain ⟨s₁, hget, ht₁⟩ := (hR type).get ht
  obtain ⟨s₂, hexplicit, ht₂⟩ := (hR type).explicitlySet ht₁
  have hsame : ∀ t', R type s t' → R type s₂ t' := by
    intro t' ht'
    obtain ⟨s₁', hget', ht₁'⟩ := (hR type).get ht'
    obtain ⟨rfl, -⟩ := Prod.mk.inj (Option.some.inj (hget.symm.trans hget'))
    obtain ⟨s₂', hexplicit', ht₂'⟩ := (hR type).explicitlySet ht₁'
    obtain ⟨rfl, -⟩ := Prod.mk.inj (Option.some.inj (hexplicit.symm.trans hexplicit'))
    exact ht₂'
  refine ⟨w.setStore a type s₂, ?_, hw.setStore hs ht₂, sameFlags_setStore hs hsame⟩
  simp [saveFlag, hobject, hr, hget, hexplicit]

/-- The registered flags are saved, one after another. -/
theorem saveFlags_spec {w₀ : World Store} (hw₀ : WellFormed R w₀) (hw : WellFormed R w)
    (hsame : SameFlags R w₀ w) {addresses : List Address}
    (haddresses : ∀ a ∈ addresses, (w₀.entries a).isSome = true) :
    ∃ w' saved, saveFlags text w addresses = some (w', saved) ∧ WellFormed R w' ∧
      SameFlags R w₀ w' ∧ List.Forall₂ (Saves R text w₀) addresses saved := by
  induction addresses generalizing w with
  | nil => exact ⟨w, [], rfl, hw, hsame, .nil⟩
  | cons a addresses ih =>
    obtain ⟨ha, haddresses⟩ := List.forall_mem_cons.mp haddresses
    obtain ⟨r, hr⟩ := Option.isSome_iff_exists.mp ha
    obtain ⟨type, t, ht⟩ := hw₀.exists_values ha
    have hr' : w.entries a = some r := by rw [hsame.entries, hr]
    obtain ⟨w₁, hsaved, hw₁, hsame₁⟩ := saveFlag_spec hR text hw (hsame.holds a type t ht) hr'
    obtain ⟨w₂, rest, hrest, hw₂, hsame₂, hsaves⟩ := ih hw₁ (hsame.trans hsame₁) haddresses
    refine ⟨w₂, _, ?_, hw₂, hsame₂, .cons ⟨type, t, r, ht, hr, rfl⟩ hsaves⟩
    simp [saveFlags, hsaved, hrest]

/-! ### What is restored -/

omit [DecidableEq ι] in
/-- A text is read back, or the flag is left as it is. -/
theorem restoreFromString_spec {type : ι} {s : Store type} (hs : ∃ t, R type s t)
    (value : List Byte) (explicitlySet : Bool) :
    ∃ s' restored, restoreFromString (parse type) s value explicitlySet = some (s', restored) ∧
      ∀ t, R type s t →
        if restored then ∃ v, parse type value t.value = some v ∧
          R type s' (t.restore v explicitlySet)
        else parse type value t.value = none := by
  obtain ⟨t, ht⟩ := hs
  obtain ⟨s₁, hget, ht₁⟩ := (hR type).get ht
  have hvalue : ∀ t', R type s t' → t'.value = t.value ∧ R type s₁ t' := by
    intro t' ht'
    obtain ⟨s₁', hget', ht₁'⟩ := (hR type).get ht'
    obtain ⟨rfl, hvalue⟩ := Prod.mk.inj (Option.some.inj (hget.symm.trans hget'))
    exact ⟨hvalue.symm, ht₁'⟩
  cases hparse : parse type value t.value with
  | none =>
    refine ⟨s₁, false, by simp [restoreFromString, hget, hparse], fun t' ht' => ?_⟩
    rw [if_neg Bool.false_ne_true, (hvalue t' ht').1, hparse]
  | some v =>
    obtain ⟨s₂, hrestore, -⟩ := (hR type).restore ht₁ v explicitlySet
    refine ⟨s₂, true, by simp [restoreFromString, hget, hparse, hrestore], fun t' ht' => ?_⟩
    obtain ⟨hsame, ht₁'⟩ := hvalue t' ht'
    obtain ⟨s₂', hrestore', ht₂'⟩ := (hR type).restore ht₁' v explicitlySet
    cases hrestore.symm.trans hrestore'
    rw [if_pos rfl, hsame, hparse]
    exact ⟨v, rfl, ht₂'⟩

/-- What the end of a scope has done when it does not abort. -/
structure Restored (R : ∀ i, Store i → Values (Value i) → Prop) (parse : ∀ i, Parse (Value i))
    (saved : List SavedText) (w w' : World Store) : Prop where
  entries : w'.entries = w.entries
  others : ∀ a ∉ saved.map SavedText.address, w'.objects a = w.objects a
  restored : ∀ x ∈ saved, x.Registered w → ∀ type t, w.Holds R x.address type t →
    ∃ v, parse type x.value t.value = some v ∧
      w'.Holds R x.address type (t.restore v x.explicitlySet)

/-- The end of a scope restores all flags that are still registered, or aborts at one whose text is
not read back. By induction on the flags that are left: each has its own address, so those before it
have not changed it. -/
theorem restoreFlags_cases {saved : List SavedText} (hnodup : (saved.map SavedText.address).Nodup)
    (hobjects : ∀ x ∈ saved, x.Registered w → ∃ type t, w.Holds R x.address type t) :
    (∃ w', restoreFlags parse w saved = some (.ok w') ∧ Restored R parse saved w w') ∨
      ∃ x ∈ saved, restoreFlags parse w saved = some (.error x.address) ∧ x.Registered w ∧
        ∀ type t, w.Holds R x.address type t → parse type x.value t.value = none := by
  induction saved generalizing w with
  | nil => exact .inl ⟨w, rfl, rfl, fun _ _ => rfl, fun _ hx => absurd hx List.not_mem_nil⟩
  | cons x rest ih =>
    rw [List.map_cons, List.nodup_cons] at hnodup
    obtain ⟨hx, hrest⟩ := hnodup
    rw [List.forall_mem_cons] at hobjects
    by_cases hregistered : x.Registered w
    · obtain ⟨type, t, s, hs, ht⟩ := hobjects.1 hregistered
      obtain ⟨name, hobject⟩ := World.store_eq_some.mp hs
      obtain ⟨s', restored, hs', hspec⟩ :=
        restoreFromString_spec hR parse ⟨t, ht⟩ x.value x.explicitlySet
      cases restored with
      | false =>
        refine .inr ⟨x, List.mem_cons_self, ?_, hregistered, ?_⟩
        · simp [restoreFlags, hregistered, hobject, hs']
        · rintro type' t' ⟨s₁, hs₁, ht₁⟩
          obtain ⟨rfl, hsame⟩ := World.store_unique hs hs₁
          cases hsame
          exact hspec t' ht₁
      | true =>
        have hstep : restoreFlags parse w (x :: rest) =
            restoreFlags parse (w.setStore x.address type s') rest := by
          simp [restoreFlags, hregistered, hobject, hs']
        have hother (y : SavedText) (hy : y ∈ rest) : y.address ≠ x.address := fun hsame =>
          hx (hsame ▸ List.mem_map_of_mem hy)
        have hholds (y : SavedText) (hy : y ∈ rest) {type' : ι} {t' : Values (Value type')} :
            (w.setStore x.address type s').Holds R y.address type' t' ↔
              w.Holds R y.address type' t' := by
          rw [World.Holds, World.Holds, World.store_setStore_of_ne (hother y hy)]
        have hobjects' : ∀ y ∈ rest, y.Registered (w.setStore x.address type s') →
            ∃ type' t', (w.setStore x.address type s').Holds R y.address type' t' := by
          intro y hy hregistered
          obtain ⟨type', t', ht'⟩ := hobjects.2 y hy hregistered
          exact ⟨type', t', (hholds y hy).mpr ht'⟩
        rcases ih hrest hobjects' with ⟨w', hw', hrestored⟩ | ⟨y, hy, herror, hy', hnone⟩
        · refine .inl ⟨w', hstep.trans hw', hrestored.entries, fun a ha => ?_, ?_⟩
          · rw [List.map_cons, List.mem_cons, not_or] at ha
            rw [hrestored.others a ha.2, World.objects_setStore_of_ne ha.1]
          · refine List.forall_mem_cons.mpr ⟨fun _ type' t' ht' => ?_, fun y hy hy' type' t' ht' =>
              hrestored.restored y hy hy' type' t' ((hholds y hy).mpr ht')⟩
            obtain ⟨s₁, hs₁, ht₁⟩ := ht'
            obtain ⟨rfl, hsame⟩ := World.store_unique hs hs₁
            cases hsame
            obtain ⟨v, hv, ht₁'⟩ := hspec t' ht₁
            refine ⟨v, hv, s', ?_, ht₁'⟩
            rw [World.store_congr (hrestored.others _ hx), World.store_setStore_self hs]
        · exact .inr ⟨y, List.mem_cons_of_mem _ hy, hstep.trans herror, hy',
            fun type' t' ht' => hnone type' t' ((hholds y hy).mpr ht')⟩
    · have hstep : restoreFlags parse w (x :: rest) = restoreFlags parse w rest := by
        rw [restoreFlags, if_neg hregistered]
      rcases ih hrest hobjects.2 with ⟨w', hw', hrestored⟩ | ⟨y, hy, herror, hy'⟩
      · refine .inl ⟨w', hstep.trans hw', hrestored.entries, fun a ha => ?_, ?_⟩
        · rw [List.map_cons, List.mem_cons, not_or] at ha
          exact hrestored.others a ha.2
        · exact List.forall_mem_cons.mpr ⟨fun h => absurd h hregistered, hrestored.restored⟩
      · exact .inr ⟨y, List.mem_cons_of_mem _ hy, hstep.trans herror, hy'⟩

end Saving

/-! ### The built-in types -/

section BuiltinTypes

/-- The storages of the built-in types. -/
def BuiltinStore : FlagType → Type
  | .bool => AtomicFlagValueStorage Bool
  | .int32 => AtomicFlagValueStorage Int32
  | .uint32 => AtomicFlagValueStorage UInt32
  | .string => StringFlagValueStorage
  | .fileMode => AtomicFlagValueStorage FileMode

instance builtinStorage : (type : FlagType) → Storage (BuiltinStore type) type.Value
  | .bool => inferInstanceAs (Storage (AtomicFlagValueStorage Bool) Bool)
  | .int32 => inferInstanceAs (Storage (AtomicFlagValueStorage Int32) Int32)
  | .uint32 => inferInstanceAs (Storage (AtomicFlagValueStorage UInt32) UInt32)
  | .string => inferInstanceAs (Storage StringFlagValueStorage (List Byte))
  | .fileMode => inferInstanceAs (Storage (AtomicFlagValueStorage FileMode) FileMode)

/-- The constructors of the storages. -/
def builtinStart : (type : FlagType) → Start type.Value → BuiltinStore type
  | .bool => AtomicFlagValueStorage.start
  | .int32 => AtomicFlagValueStorage.start
  | .uint32 => AtomicFlagValueStorage.start
  | .string => StringFlagValueStorage.start
  | .fileMode => AtomicFlagValueStorage.start

/-- What the storages stand for. -/
def BuiltinRepresents : (type : FlagType) → BuiltinStore type → Values type.Value → Prop
  | .bool => AtomicFlagValueStorage.Represents
  | .int32 => AtomicFlagValueStorage.Represents
  | .uint32 => AtomicFlagValueStorage.Represents
  | .string => StringFlagValueStorage.Represents
  | .fileMode => AtomicFlagValueStorage.Represents

theorem refines_builtin (type : FlagType) :
    Refines (BuiltinStore type) (BuiltinRepresents type) := by
  cases type with
  | string => exact FlagValues.refines_string
  | _ => exact FlagValues.refines_atomic _

theorem represents_builtinStart (type : FlagType) (start : Start type.Value) :
    BuiltinRepresents type (builtinStart type start) (.init start.value) := by
  cases type with
  | string => exact StringFlagValueStorage.represents_start start
  | _ => exact AtomicFlagValueStorage.represents_start start

/-- The end of a scope does not abort, and every flag that has stayed registered is as it was when
the scope began. -/
def RestoresFlags (w w' : World BuiltinStore) (saved : List SavedText) : Prop :=
  ∃ w'', restoreFlags FlagType.parse w' saved = some (.ok w'') ∧
    ∀ a r, w.entries a = some r → w'.entries a = some r →
      ∀ type v explicitlySet, w.Has a type v explicitlySet → w''.Has a type v explicitlySet

/-- The end of a scope that has begun in a well-formed state, after any steps. -/
theorem restoresFlags_of_run (locale : NumericPunctuation) {w w₁ w₂ : World BuiltinStore}
    (hw : WellFormed BuiltinRepresents w) (hw₁ : WellFormed BuiltinRepresents w₁)
    (hsame : SameFlags BuiltinRepresents w w₁) {saved : List SavedText}
    (hsaves : List.Forall₂ (Saves BuiltinRepresents (FlagType.text locale) w)
      (w.flags.map Prod.snd) saved) {actions : List (Action FlagType.Value)}
    (hrun : run (step builtinStart) w₁ actions = some w₂) :
    RestoresFlags w w₂ saved ↔ ∀ a r, w.entries a = some r → w₂.entries a = some r →
      ∀ type v explicitlySet, w.Has a type v explicitlySet → type.Restorable locale v := by
  have hw₂ := wellFormed_run refines_builtin represents_builtinStart hw₁ hrun
  obtain ⟨haddresses, hsaved, hmem⟩ := saves_mem hsaves
  -- a flag that has been saved and is still registered is an object of its type
  have hstays {a r type} {t : Values (FlagType.Value type)}
      (ht : w.Holds BuiltinRepresents a type t)
        (hr : w.entries a = some r) (hr₂ : w₂.entries a = some r) :
        ∃ t₂, w₂.Holds BuiltinRepresents a type t₂ := by
    obtain ⟨s₁, hs₁, -⟩ := hsame.holds a type t ht
    obtain ⟨s₂, hs₂⟩ := stays_run refines_builtin represents_builtinStart hw₁ hrun hs₁
      (by rw [hsame.entries, hr]) hr₂
    exact hw₂.exists_holds hs₂
  have hregistered {a r type} {t : Values (FlagType.Value type)} (hr : w.entries a = some r) :
      (⟨a, r, type.text locale t.value, t.explicitlySet⟩ : SavedText).Registered w₂ ↔
        w₂.entries a = some r :=
    or_iff_right (Nat.ne_of_gt (hw.bounds a r hr).1)
  have hobjects : ∀ x ∈ saved, x.Registered w₂ →
      ∃ type t, w₂.Holds BuiltinRepresents x.address type t := by
    intro x hx hx₂
    obtain ⟨type, t, r, ht, hr, hxt⟩ := hsaved x hx
    rw [hxt] at hx₂
    exact ⟨type, hstays ht hr ((hregistered hr).mp hx₂)⟩
  have hcases := restoreFlags_cases refines_builtin FlagType.parse
    (haddresses ▸ hw.nodup) hobjects
  constructor
  · rintro ⟨w₃, hw₃, hrestores⟩ a r hr hr₂ type v explicitlySet hv
    obtain ⟨x, hx, type', t, r', ht, hr', rfl⟩ :=
      hmem a ((hw.registered_iff a).mp (by rw [hr]; rfl))
    obtain rfl := Option.some.inj (hr.symm.trans hr')
    obtain rfl := ht.type_eq hv
    obtain ⟨rfl, rfl⟩ := (ht.has_iff refines_builtin _ _).mp hv
    obtain ⟨t₂, ht₂⟩ := hstays ht hr hr₂
    rcases hcases with ⟨w₃', hw₃', hrestored⟩ | ⟨y, -, herror, -⟩
    · cases hw₃.symm.trans hw₃'
      obtain ⟨v', hparse, ht₃⟩ := hrestored.restored _ hx ((hregistered hr).mpr hr₂) _ t₂ ht₂
      obtain ⟨hsame, -⟩ := (ht₃.has_iff refines_builtin _ _).mp (hrestores a r hr hr₂ _ _ _ hv)
      have hv' : t.value = v' := hsame
      rw [← FlagValues.parse_text_iff locale _ t.value t₂.value]
      exact hparse.trans (congrArg some hv'.symm)
    · cases hw₃.symm.trans herror
  · intro hrestorable
    rcases hcases with ⟨w₃, hw₃, hrestored⟩ | ⟨x, hx, -, hx₂, hnone⟩
    · refine ⟨w₃, hw₃, fun a r hr hr₂ type v explicitlySet hv => ?_⟩
      have hread := hrestorable a r hr hr₂ type v explicitlySet hv
      obtain ⟨x, hx, type', t, r', ht, hr', rfl⟩ :=
        hmem a ((hw.registered_iff a).mp (by rw [hr]; rfl))
      obtain rfl := Option.some.inj (hr.symm.trans hr')
      obtain rfl := ht.type_eq hv
      obtain ⟨rfl, rfl⟩ := (ht.has_iff refines_builtin _ _).mp hv
      obtain ⟨t₂, ht₂⟩ := hstays ht hr hr₂
      obtain ⟨v', hparse, ht₃⟩ := hrestored.restored _ hx ((hregistered hr).mpr hr₂) _ t₂ ht₂
      rw [(FlagValues.parse_text_iff locale _ _ _).mpr hread] at hparse
      cases hparse
      exact ht₃.has refines_builtin
    · obtain ⟨type, t, r, ht, hr, hxt⟩ := hsaved x hx
      have hr₂ : w₂.entries x.address = some r := by
        rw [hxt] at hx₂
        exact (hregistered hr).mp hx₂
      obtain ⟨t₂, ht₂⟩ := hstays ht hr hr₂
      have hread := hrestorable _ r hr hr₂ type _ _ (ht.has refines_builtin)
      have hparse := (FlagValues.parse_text_iff locale type t.value t₂.value).mpr hread
      have hnone := hnone type t₂ ht₂
      rw [hxt] at hnone
      cases hparse.symm.trans hnone

/-- The values of the built-in types are read back from their text but for the file modes above the
maximum and those whose digits the locale groups. In every run of a program, the end of a scope of
all flags restores every flag that has stayed registered if and only if none of them had such a
value when the scope began. -/
theorem restoresFlags_iff (locale : NumericPunctuation) :
    (∀ (type : FlagType) (v output : type.Value),
      type.parse (type.text locale v) output = some v ↔ type.Restorable locale v) ∧
    ∀ actions w, run (step builtinStart) World.empty actions = some w →
      ∃ w₁ saved, constructScope (FlagType.text locale) w = some (w₁, saved) ∧
        ∀ actions₁ w₂, run (step builtinStart) w₁ actions₁ = some w₂ →
          (RestoresFlags w w₂ saved ↔ ∀ a r, w.entries a = some r → w₂.entries a = some r →
            ∀ type v explicitlySet, w.Has a type v explicitlySet → type.Restorable locale v) := by
  refine ⟨fun type v output => FlagValues.parse_text_iff locale type v output,
    fun actions w hw => ?_⟩
  have hw := wellFormed_run refines_builtin represents_builtinStart (wellFormed_empty _) hw
  obtain ⟨w₁, saved, hsaved, hw₁, hsame, hsaves⟩ :=
    saveFlags_spec refines_builtin (FlagType.text locale) hw hw (.refl w)
      fun a ha => (hw.registered_iff a).mpr ha
  exact ⟨w₁, saved, hsaved, fun actions₁ w₂ hrun =>
    restoresFlags_of_run locale hw hw₁ hsame hsaves hrun⟩

/-- A flag for a file mode, which is set to one above the maximum. -/
def largeFileMode : List (Action FlagType.Value) :=
  [.create 0 (bytes "logfile_mode") .fileMode (.lazily fun _ => ⟨0o664⟩), .registerFlag 0,
    .operate 0 .fileMode (.set ⟨0o10000⟩)]

/-- The flag at which the end of a scope aborts. -/
def abortedAt : Option (Except Address (World Store)) → Option Address
  | some (.error a) => some a
  | _ => none

theorem abortedAt_eq_some {result : Option (Except Address (World Store))} {a : Address}
    (h : abortedAt result = some a) : result = some (.error a) := by
  match result with
  | some (.error _) => exact congrArg (fun a => some (Except.error a)) (Option.some.inj h)
  | some (.ok _) => cases h
  | none => cases h

/-- The mode cannot be read back from its text, and the end of a scope aborts. -/
theorem restores_largeFileMode :
    FlagType.fileMode.parse (FlagType.text .classic .fileMode ⟨0o10000⟩) ⟨0⟩ = none ∧
      ∃ w w₁ saved, run (step builtinStart) World.empty largeFileMode = some w ∧
        constructScope (FlagType.text .classic) w = some (w₁, saved) ∧
        restoreFlags FlagType.parse w₁ saved = some (.error 0) := by
  exact ⟨by decide +kernel, _, _, _, rfl, rfl, abortedAt_eq_some (by decide +kernel)⟩

/-- The same flag, with a mode that is read back. -/
def ordinaryFileMode : List (Action FlagType.Value) :=
  [.create 0 (bytes "logfile_mode") .fileMode (.lazily fun _ => ⟨0o664⟩), .registerFlag 0,
    .operate 0 .fileMode (.set ⟨0o640⟩)]

/-- The end of a scope that has begun with the large mode does not restore the flag. The ordinary
mode is restored when another one has been set in the scope. -/
theorem restoresFlags_iff_modes :
    (∃ w w₁ saved, run (step builtinStart) World.empty largeFileMode = some w ∧
      constructScope (FlagType.text .classic) w = some (w₁, saved) ∧ ¬RestoresFlags w w₁ saved) ∧
    ∃ w w₁ w₂ saved, run (step builtinStart) World.empty ordinaryFileMode = some w ∧
      constructScope (FlagType.text .classic) w = some (w₁, saved) ∧
      run (step builtinStart) w₁ [.operate 0 .fileMode (.set ⟨0o600⟩)] = some w₂ ∧
      w₂.Has 0 .fileMode ⟨0o600⟩ true ∧ RestoresFlags w w₂ saved := by
  constructor
  · obtain ⟨w, w₁, saved, hrun, hsaved, hentry, hentry₁, hhas⟩ : ∃ w w₁ saved,
        run (step builtinStart) World.empty largeFileMode = some w ∧
          constructScope (FlagType.text .classic) w = some (w₁, saved) ∧ w.entries 0 = some 1 ∧
          w₁.entries 0 = some 1 ∧ w.Has 0 .fileMode ⟨0o10000⟩ true :=
      ⟨_, _, _, rfl, rfl, rfl, rfl, _, _, _, rfl, rfl, rfl⟩
    obtain ⟨w₁', saved', hsaved', hiff⟩ := (restoresFlags_iff .classic).2 largeFileMode w hrun
    cases hsaved.symm.trans hsaved'
    refine ⟨w, w₁, saved, hrun, hsaved, fun hrestores => ?_⟩
    have hrestorable := (hiff [] w₁ rfl).mp hrestores 0 1 hentry hentry₁ _ _ _ hhas
    exact absurd hrestorable.1 (by decide)
  · obtain ⟨w, w₁, w₂, saved, hrun, hsaved, hscope, hentries, htype, hhas, hhas₂⟩ : ∃ w w₁ w₂ saved,
        run (step builtinStart) World.empty ordinaryFileMode = some w ∧
          constructScope (FlagType.text .classic) w = some (w₁, saved) ∧
          run (step builtinStart) w₁ [.operate 0 .fileMode (.set ⟨0o600⟩)] = some w₂ ∧
          (∀ a, w.entries a ≠ none → a = 0) ∧
          (∀ type s, w.store 0 type = some s → type = .fileMode) ∧
          w.Has 0 .fileMode ⟨0o640⟩ true ∧ w₂.Has 0 .fileMode ⟨0o600⟩ true := by
      refine ⟨_, _, _, _, rfl, rfl, rfl, fun a ha => ?_, fun type s hs => ?_,
        ⟨_, _, _, rfl, rfl, rfl⟩, _, _, _, rfl, rfl, rfl⟩
      · by_contra hne
        exact ha (Function.update_of_ne hne _ _)
      · cases type <;> first | rfl | cases hs
    obtain ⟨w₁', saved', hsaved', hiff⟩ := (restoresFlags_iff .classic).2 ordinaryFileMode w hrun
    cases hsaved.symm.trans hsaved'
    refine ⟨w, w₁, w₂, saved, hrun, hsaved, hscope, hhas₂, (hiff _ w₂ hscope).mpr ?_⟩
    intro a r ha _ type v explicitlySet hv
    obtain rfl := hentries a (ha ▸ Option.some_ne_none r)
    obtain ⟨s, s', -, hs, hget, -⟩ := hv
    obtain ⟨s₀, s₀', -, hs₀, hget₀, -⟩ := hhas
    obtain rfl := htype type s hs
    obtain rfl := Option.some.inj (hs.symm.trans hs₀)
    cases hget.symm.trans hget₀
    -- the classic locale groups no digits
    exact ⟨by decide, fun ⟨size, hsize, _⟩ => by cases hsize⟩

end BuiltinTypes

end FlagObjects

end NgLog
