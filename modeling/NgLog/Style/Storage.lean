import NgLog.Style.Recorder
import NgLog.Support.Transition

/-!
# The storage of hyperlink targets

`StoreAttributes` checks that a target fits with `uri_length > kMaxUriBytes - uri_size_ - 1` in
unsigned arithmetic. As long as a byte of the storage is free the difference is what it says. Once
the storage is full it wraps around, every target passes, and the copy goes past the end. This file
shows that nothing else can go wrong: the storage is safe in exactly the runs in which no push with
a hyperlink reaches a full storage.

## Main definitions

* `StorageOk` — the invariant of the storage
* `Overfull` — the pushes that the check gets wrong
* `StorageSafe` — what every step should keep

## Main results

* `storageSafe_iff` — one step is safe if and only if it is not overfull
* `storage_safe_iff` — the same for every run
* `storage_unsafe` — a run that is not safe
-/

namespace NgLog

namespace Style

open Transition (run Along)

variable {Color : Type}

/-! ### The arithmetic of the check -/

theorem sizeSub_of_le {a b : ℕ} (hle : b ≤ a) (ha : a < sizeModulus) : sizeSub a b = a - b := by
  rw [sizeSub, Nat.sub_add_comm hle, Nat.add_mod_right, Nat.mod_eq_of_lt (by omega)]

/-- While a byte is free, the check computes the room that is left beside the terminator. -/
theorem room_of_lt {uriSize : ℕ} (h : uriSize < kMaxUriBytes) :
    sizeSub (sizeSub kMaxUriBytes uriSize) 1 = kMaxUriBytes - uriSize - 1 := by
  have hmax : kMaxUriBytes < sizeModulus := by decide
  rw [sizeSub_of_le (Nat.le_of_lt h) hmax, sizeSub_of_le (by omega) (by omega)]

/-- When the storage is full, the check computes the largest `std::size_t`. -/
theorem room_full : sizeSub (sizeSub kMaxUriBytes kMaxUriBytes) 1 = sizeModulus - 1 := by decide

/-! ### The invariant -/

/-- A stored hyperlink is one of the targets. -/
def Recorded (r : Recorder Color) (attributes : StoredAttributes Color) : Prop :=
  ∀ offset ∈ attributes.hyperlink, ∃ uri, (offset, uri) ∈ r.uris

/-- The targets lie in the storage with their terminators, one after the other, and what the spans
and the active styles point to is among them. -/
structure StorageOk (r : Recorder Color) : Prop where
  size_le : r.uriSize ≤ kMaxUriBytes
  inside : ∀ p ∈ r.uris, p.1 + p.2.length + 1 ≤ r.uriSize
  stored : ∀ p ∈ r.uris, ∀ i ≤ p.2.length, r.uriStorage (p.1 + i) = p.2.byteAt i
  disjoint : r.uris.Pairwise fun p q => q.1 + q.2.length + 1 ≤ p.1
  spans : ∀ span ∈ r.spans, Recorded r span.value
  active : ∀ style ∈ r.active, Recorded r style.attributes

theorem storageOk_init (storage : ℕ → Byte) : StorageOk (Recorder.init storage : Recorder Color) :=
  ⟨Nat.zero_le _, nofun, nofun, .nil, nofun, nofun⟩

theorem storageOk_disable (r : Recorder Color) : StorageOk r.disable :=
  ⟨Nat.zero_le _, nofun, nofun, .nil, nofun, nofun⟩

/-- A target fits if there is room for it and its terminator. -/
def Fits (r : Recorder Color) (attributes : TextAttributes Color) : Prop :=
  ∀ uri ∈ attributes.hyperlink, uri.text.length + 1 ≤ kMaxUriBytes - r.uriSize

/-- A push that reaches `StoreAttributes` with a target when the storage is full. -/
def Overfull (r : Recorder Color) : Call Color → Prop
  | .push offset attributes =>
    r.disabled = false ∧ r.active.length < kMaxSpans ∧ (r.suspend offset).isSome = true ∧
      attributes.hyperlink.isSome = true ∧ r.uriSize = kMaxUriBytes
  | _ => False

/-- A call leaves the invariant, and a push of a target that does not fit leaves the storage alone
and the recorder disabled. -/
def StorageSafe (r : Recorder Color) (c : Call Color) : Prop :=
  StorageOk r ∧ ∃ r', step r c = some r' ∧ StorageOk r' ∧
    ∀ offset attributes, c = .push offset attributes → ¬Fits r attributes →
      r'.uriStorage = r.uriStorage ∧ r'.disabled = true

/-! ### The storage after each function -/

theorem copyTo_of_lt {storage : ℕ → Byte} {offset i : ℕ} (text : List Byte) (h : i < offset) :
    copyTo storage offset text i = storage i := if_neg fun hi => by omega

theorem copyTo_array (storage : ℕ → Byte) (offset : ℕ) (uri : CString) {i : ℕ}
    (h : i ≤ uri.length) : copyTo storage offset uri.array (offset + i) = uri.byteAt i := by
  have hlen : uri.array.length = uri.length + 1 := by
    rw [CString.array, List.length_append, List.length_singleton, CString.length]
  rw [copyTo, if_pos (by omega), Nat.add_sub_cancel_left, CString.byteAt]

/-- A target that fits is appended to the others. -/
theorem storageOk_store {r : Recorder Color} (hr : StorageOk r) (uri : CString)
    (hfits : r.uriSize + uri.length + 1 ≤ kMaxUriBytes) :
    StorageOk { r with
      uriStorage := copyTo r.uriStorage r.uriSize uri.array
      uriSize := r.uriSize + uri.length + 1
      uris := (r.uriSize, uri) :: r.uris } := by
  have hrecorded {attributes : StoredAttributes Color} (h : Recorded r attributes) :
      ∀ offset ∈ attributes.hyperlink, ∃ uri', (offset, uri') ∈ (r.uriSize, uri) :: r.uris :=
    fun offset ho => (h offset ho).imp fun _ => List.mem_cons_of_mem _
  refine ⟨hfits, ?_, ?_, ?_, fun span hs => hrecorded (hr.spans span hs),
    fun style hs => hrecorded (hr.active style hs)⟩
  · refine List.forall_mem_cons.mpr ⟨Nat.le_refl _, fun p hp => ?_⟩
    have := hr.inside p hp
    dsimp only
    omega
  · refine List.forall_mem_cons.mpr ⟨fun i hi => copyTo_array _ _ uri hi, fun p hp i hi => ?_⟩
    have := hr.inside p hp
    dsimp only
    rw [copyTo_of_lt _ (by omega)]
    exact hr.stored p hp i hi
  · exact List.pairwise_cons.mpr ⟨hr.inside, hr.disjoint⟩

/-- A recorder over the same storage whose spans and active styles are recorded. -/
theorem StorageOk.of_same {r r' : Recorder Color} (hr : StorageOk r)
    (hstorage : r'.uriStorage = r.uriStorage) (hsize : r'.uriSize = r.uriSize)
    (huris : r'.uris = r.uris) (hspans : ∀ span ∈ r'.spans, Recorded r span.value)
    (hactive : ∀ style ∈ r'.active, Recorded r style.attributes) : StorageOk r' := by
  refine ⟨hsize ▸ hr.size_le, ?_, ?_, huris ▸ hr.disjoint, ?_, ?_⟩
  · rw [huris, hsize]
    exact hr.inside
  · rw [huris, hstorage]
    exact hr.stored
  · simp only [Recorded, huris]
    exact hspans
  · simp only [Recorded, huris]
    exact hactive

/-- What `AddSpan` leaves alone, and what it adds. -/
structure Added (r r' : Recorder Color) (attributes : StoredAttributes Color) : Prop where
  storage : r'.uriStorage = r.uriStorage
  size : r'.uriSize = r.uriSize
  uris : r'.uris = r.uris
  active : r'.active = r.active
  disabled : r'.disabled = r.disabled
  spans : ∀ span ∈ r'.spans, span ∈ r.spans ∨ span.value = attributes

theorem added_of_addSpan {r r' : Recorder Color} {start stop : ℕ}
    {attributes : StoredAttributes Color} (h : r.addSpan start stop attributes = some r') :
    Added r r' attributes := by
  rw [Recorder.addSpan] at h
  split at h
  · cases h
    exact ⟨rfl, rfl, rfl, rfl, rfl, fun _ => .inl⟩
  · split at h
    · cases h
    · cases h
      refine ⟨rfl, rfl, rfl, rfl, rfl, fun span hspan => ?_⟩
      rcases List.mem_append.mp hspan with hspan | hspan
      · exact .inl hspan
      · exact .inr (List.mem_singleton.mp hspan ▸ rfl)

theorem Added.storageOk {r r' : Recorder Color} {attributes : StoredAttributes Color}
    (h : Added r r' attributes) (hr : StorageOk r) (hattributes : Recorded r attributes) :
    StorageOk r' := by
  refine hr.of_same h.storage h.size h.uris (fun span hspan => ?_) (h.active ▸ hr.active)
  rcases h.spans span hspan with hspan | hvalue
  · exact hr.spans span hspan
  · exact hvalue ▸ hattributes

theorem storageOk_suspend {r r' : Recorder Color} {offset : ℕ} (hr : StorageOk r)
    (h : r.suspend offset = some r') :
    StorageOk r' ∧ r'.uriStorage = r.uriStorage ∧ r'.uriSize = r.uriSize := by
  rw [Recorder.suspend] at h
  split at h
  · cases h
    exact ⟨hr, rfl, rfl⟩
  · rename_i current outer hactive
    have hcurrent := hr.active current (hactive ▸ List.mem_cons_self ..)
    rcases hadd : r.addSpan current.start offset current.attributes with _ | r₁
    · simp only [hadd, Option.bind_eq_bind, Option.bind_none] at h
      cases h
    · simp only [hadd, Option.bind_eq_bind, Option.bind_some] at h
      cases h
      have hadded := added_of_addSpan hadd
      have hr₁ := hadded.storageOk hr hcurrent
      refine ⟨hr₁.of_same rfl rfl rfl hr₁.spans (List.forall_mem_cons.mpr ⟨?_, fun style hs => ?_⟩),
        hadded.storage, hadded.size⟩
      · exact hr₁.active current (hadded.active.symm ▸ hactive ▸ List.mem_cons_self ..)
      · exact hr₁.active style (hadded.active.symm ▸ hactive ▸ List.mem_cons_of_mem _ hs)

theorem storageOk_pop {r : Recorder Color} (hr : StorageOk r) (offset : ℕ) :
    StorageOk (r.pop offset) := by
  rw [Recorder.pop]
  split
  · exact hr
  · split
    · exact hr
    · rename_i current outer hactive
      have hcurrent := hr.active current (hactive ▸ List.mem_cons_self ..)
      split
      · exact storageOk_disable r
      · rename_i r₁ hadd
        have hadded := added_of_addSpan hadd
        have hr₁ := hadded.storageOk hr hcurrent
        refine hr₁.of_same rfl rfl rfl hr₁.spans ?_
        have houter : ∀ style ∈ outer, Recorded r₁ style.attributes := fun style hs =>
          hr₁.active style (hadded.active.symm ▸ hactive ▸ List.mem_cons_of_mem _ hs)
        cases outer with
        | nil => exact nofun
        | cons next rest =>
          exact List.forall_mem_cons.mpr ⟨houter next (List.mem_cons_self ..),
            fun style hs => houter style (List.mem_cons_of_mem _ hs)⟩

theorem storageOk_closeLoop {offset : ℕ} :
    ∀ (open' : List (ActiveStyle Color)) (r : Recorder Color), StorageOk r →
      (∀ style ∈ open', Recorded r style.attributes) →
        StorageOk (Recorder.closeLoop offset open' r)
  | [], _, hr, _ => hr
  | current :: outer, r, hr, hopen => by
    rw [Recorder.closeLoop]
    split
    · exact storageOk_disable r
    · rename_i r₁ hadd
      have hadded := added_of_addSpan hadd
      have hr₁ := hadded.storageOk hr (hopen current (List.mem_cons_self ..))
      have houter : ∀ style ∈ outer, Recorded r₁ style.attributes := by
        simp only [Recorded, hadded.uris]
        exact fun style hs => hopen style (List.mem_cons_of_mem _ hs)
      exact storageOk_closeLoop outer _ (hr₁.of_same rfl rfl rfl hr₁.spans houter) houter

theorem storageOk_close {r : Recorder Color} (hr : StorageOk r) (offset : ℕ) :
    StorageOk (r.close offset) := by
  rw [Recorder.close]
  split
  · exact hr
  · exact storageOk_closeLoop r.active r hr hr.active

/-! ### `StoreAttributes` and `Push` -/

/-- A target whose terminator fits is stored. -/
theorem storeAttributes_fits {r : Recorder Color} {attributes : TextAttributes Color} {uri : Uri}
    (huri : attributes.hyperlink = some uri) (hr : r.uriSize ≤ kMaxUriBytes)
    (hfits : Fits r attributes) :
    r.storeAttributes attributes = some (some ⟨attributes.color, some r.uriSize⟩,
      { r with
        uriStorage := copyTo r.uriStorage r.uriSize uri.text.array
        uriSize := r.uriSize + uri.text.length + 1
        uris := (r.uriSize, uri.text) :: r.uris }) := by
  have hroom := hfits uri huri
  have hfree : r.uriSize < kMaxUriBytes := by omega
  have hcheck := room_of_lt hfree
  simp only [Recorder.storeAttributes, huri, hcheck]
  rw [if_neg (by omega), if_pos (by omega)]

/-- A target that does not fit is refused while a byte of the storage is free. -/
theorem storeAttributes_refused {r : Recorder Color} {attributes : TextAttributes Color}
    (hlt : r.uriSize < kMaxUriBytes) (hfits : ¬Fits r attributes) :
    r.storeAttributes attributes = some (none, r) := by
  simp only [Fits, not_forall] at hfits
  obtain ⟨uri, huri, hroom⟩ := hfits
  have hcheck := room_of_lt hlt
  simp only [Recorder.storeAttributes, Option.mem_def.mp huri, hcheck]
  rw [if_pos (by omega)]

/-- Into a full storage every target is copied, past its end. -/
theorem storeAttributes_full {r : Recorder Color} {attributes : TextAttributes Color}
    (hfull : r.uriSize = kMaxUriBytes) (huri : attributes.hyperlink.isSome = true) :
    r.storeAttributes attributes = none := by
  obtain ⟨uri, huri⟩ := Option.isSome_iff_exists.mp huri
  have hlength := uri.length_lt
  simp only [Recorder.storeAttributes, huri, hfull, room_full]
  rw [if_neg (by omega), if_neg (by omega)]

theorem fits_of_none {r : Recorder Color} {attributes : TextAttributes Color}
    (h : attributes.hyperlink = none) : Fits r attributes := by
  intro uri huri
  rw [h] at huri
  cases huri

/-- A push that is not overfull keeps the invariant and refuses what does not fit. -/
theorem push_safe {r : Recorder Color} {offset : ℕ} {attributes : TextAttributes Color}
    (hr : StorageOk r) (h : ¬Overfull r (.push offset attributes)) :
    ∃ r', r.push offset attributes = some r' ∧ StorageOk r' ∧
      (¬Fits r attributes → r'.uriStorage = r.uriStorage ∧ r'.disabled = true) := by
  rw [Recorder.push]
  split
  · rename_i hdisabled
    exact ⟨r, rfl, hr, fun _ => ⟨rfl, hdisabled⟩⟩
  split
  · exact ⟨_, rfl, storageOk_disable r, fun _ => ⟨rfl, rfl⟩⟩
  rename_i hdisabled hactive
  rcases hsuspend : r.suspend offset with _ | r₁
  · exact ⟨_, rfl, storageOk_disable r, fun _ => ⟨rfl, rfl⟩⟩
  obtain ⟨hr₁, hstorage, hsize⟩ := storageOk_suspend hr hsuspend
  rcases huri : attributes.hyperlink with _ | uri
  · have hstore : r₁.storeAttributes attributes = some (some ⟨attributes.color, none⟩, r₁) := by
      rw [Recorder.storeAttributes, huri]
    simp only [hstore]
    refine ⟨_, rfl, hr₁.of_same rfl rfl rfl hr₁.spans
      (List.forall_mem_cons.mpr ⟨nofun, hr₁.active⟩), fun hfits => ?_⟩
    exact absurd (fits_of_none huri) hfits
  · have hlt : r.uriSize < kMaxUriBytes := by
      refine Nat.lt_of_le_of_ne hr.size_le fun hfull => h ⟨by simpa using hdisabled,
        Nat.lt_of_not_le hactive, by rw [hsuspend]; rfl, by rw [huri]; rfl, hfull⟩
    by_cases hfits : Fits r attributes
    · have hfits₁ : Fits r₁ attributes := by rwa [Fits, hsize]
      have hroom := hfits uri huri
      simp only [storeAttributes_fits huri hr₁.size_le hfits₁]
      have hstored := storageOk_store hr₁ uri.text (by omega)
      refine ⟨_, rfl, hstored.of_same rfl rfl rfl hstored.spans
        (List.forall_mem_cons.mpr ⟨fun o ho => ?_, hstored.active⟩), fun hno => absurd hfits hno⟩
      exact ⟨uri.text, Option.mem_some.mp ho ▸ List.mem_cons_self ..⟩
    · have hfits₁ : ¬Fits r₁ attributes := by rwa [Fits, hsize]
      simp only [storeAttributes_refused (hsize ▸ hlt) hfits₁]
      exact ⟨_, rfl, storageOk_disable r₁, fun _ => ⟨hstorage, rfl⟩⟩

/-- An overfull push writes outside the storage. -/
theorem push_overfull {r : Recorder Color} {offset : ℕ} {attributes : TextAttributes Color}
    (hr : StorageOk r) (h : Overfull r (.push offset attributes)) :
    r.push offset attributes = none := by
  obtain ⟨hdisabled, hactive, hsuspend, huri, hfull⟩ := h
  obtain ⟨r₁, hsuspend⟩ := Option.isSome_iff_exists.mp hsuspend
  obtain ⟨-, -, hsize⟩ := storageOk_suspend hr hsuspend
  have hstore := storeAttributes_full (r := r₁) (hsize.trans hfull) huri
  simp only [Recorder.push, hdisabled, Bool.false_eq_true, if_false, hsuspend, hstore]
  rw [if_neg (Nat.not_le_of_lt hactive)]

/-! ### Runs -/

/-- A call is safe if and only if it is not an overfull push. -/
theorem storageSafe_iff {r : Recorder Color} (hr : StorageOk r) (c : Call Color) :
    StorageSafe r c ↔ ¬Overfull r c := by
  constructor
  · rintro ⟨-, r', hstep, -⟩ h
    cases c with
    | push offset attributes => cases (push_overfull hr h).symm.trans hstep
    | _ => exact h
  · intro h
    refine ⟨hr, ?_⟩
    cases c with
    | reset => exact ⟨_, rfl, storageOk_init _, nofun⟩
    | push offset attributes =>
      obtain ⟨r', hstep, hr', hrefused⟩ := push_safe hr h
      refine ⟨r', hstep, hr', fun o a heq hfits => ?_⟩
      cases heq
      exact hrefused hfits
    | pop offset => exact ⟨_, rfl, storageOk_pop hr offset, nofun⟩
    | close offset => exact ⟨_, rfl, storageOk_close hr offset, nofun⟩

/-- Every call that is not overfull can be made. -/
theorem storageOk_enabled (r : Recorder Color) (c : Call Color) (h : ¬Overfull r c)
    (hr : StorageOk r) : ∃ r', step r c = some r' ∧ StorageOk r' := by
  obtain ⟨-, r', hstep, hr', -⟩ := (storageSafe_iff hr c).mpr h
  exact ⟨r', hstep, hr'⟩

/-- An overfull push cannot be made, and every other call keeps the invariant. -/
theorem storageOk_step (r : Recorder Color) (c : Call Color) (r' : Recorder Color)
    (hr : StorageOk r) (hstep : step r c = some r') : ¬Overfull r c ∧ StorageOk r' := by
  have hfull : ¬Overfull r c := fun h => by
    cases c with
    | push offset attributes => cases (push_overfull hr h).symm.trans hstep
    | _ => exact h
  obtain ⟨r₁, hstep', hr₁⟩ := storageOk_enabled r c hfull hr
  obtain rfl : r' = r₁ := Option.some.inj (hstep.symm.trans hstep')
  exact ⟨hfull, hr₁⟩

/-- In every sequence of calls, on a new recorder over any storage: each call is safe, in the state
in which it is made, if and only if no push with a hyperlink reaches a full storage. -/
theorem storage_safe_iff (storage : ℕ → Byte) (calls : List (Call Color)) :
    Along step StorageSafe (Recorder.init storage) calls ↔
      Along step (fun r c => ¬Overfull r c) (Recorder.init storage) calls :=
  Transition.along_congr (I := StorageOk) (fun _ c hr => storageSafe_iff hr c)
    (fun _ _ _ hsafe _ hstep => by
      obtain ⟨-, r', hr', hok, -⟩ := hsafe
      cases hr'.symm.trans hstep
      exact hok)
    (storageOk_init storage)

/-- A target of `length` letters. -/
def Uri.ofLength (length : ℕ) (h : length < sizeModulus) : Uri where
  text := ⟨List.replicate length 117, fun hz => by
    cases (List.mem_replicate.mp hz).2⟩
  length_lt := by rwa [CString.length, List.length_replicate]

/-- The first push of a target that fills the storage together with its terminator. -/
theorem push_filling (storage : ℕ → Byte) {attributes : TextAttributes Color} {uri : Uri}
    (huri : attributes.hyperlink = some uri) (hlength : uri.text.length + 1 = kMaxUriBytes) :
    ∃ r : Recorder Color, (Recorder.init storage).push 0 attributes = some r ∧
      Overfull r (.push 0 attributes) := by
  have hfits : Fits (Recorder.init storage : Recorder Color) attributes := by
    intro uri' huri'
    obtain rfl : uri = uri' := Option.some.inj (huri.symm.trans huri')
    exact Nat.le_of_eq hlength
  have hstore := storeAttributes_fits huri (Nat.zero_le _) hfits
  have hpush : (Recorder.init storage).push 0 attributes = some
      { spans := []
        active := [⟨0, ⟨attributes.color, some 0⟩⟩]
        uriStorage := copyTo storage 0 uri.text.array
        uriSize := 0 + uri.text.length + 1
        disabled := false
        uris := [(0, uri.text)] } := by
    have hroom : ¬0 ≥ kMaxSpans := by decide
    have hsuspend : (Recorder.init storage : Recorder Color).suspend 0 =
        some (Recorder.init storage) := rfl
    rw [Recorder.push, if_neg (by exact Bool.false_ne_true), if_neg (by exact hroom), hsuspend]
    simp only [hstore]
    rfl
  have hactive : 1 < kMaxSpans := by decide
  refine ⟨_, hpush, rfl, hactive, rfl, by rw [huri]; rfl, ?_⟩
  change 0 + uri.text.length + 1 = kMaxUriBytes
  omega

/-- Two pushes of a target of 8191 letters: the first fills the storage with its terminator, and
the second is copied behind it. -/
theorem storage_unsafe : ¬∀ (storage : ℕ → Byte) (calls : List (Call Unit)),
    Along step StorageSafe (Recorder.init storage) calls := by
  intro hall
  have hlt : kMaxUriBytes - 1 < sizeModulus := by decide
  have hlength : (Uri.ofLength (kMaxUriBytes - 1) hlt).text.length + 1 = kMaxUriBytes := by
    rw [Uri.ofLength, CString.length, List.length_replicate]
    exact Nat.sub_add_cancel (by decide)
  let attributes : TextAttributes Unit := ⟨(), some (.ofLength (kMaxUriBytes - 1) hlt)⟩
  obtain ⟨r, hfirst, hover⟩ := push_filling (fun _ => 0) (show attributes.hyperlink = _ from rfl)
    hlength
  have hsafe := hall (fun _ => 0) [.push 0 attributes, .push 0 attributes] [.push 0 attributes] _
    [] rfl r (by rw [Transition.run_singleton]; exact hfirst)
  exact (storageSafe_iff hsafe.1 _).mp hsafe hover

end Style

end NgLog
