import Mathlib.Data.List.TakeWhile
import NgLog.Support.Bytes

/-!
# Absolute paths and network paths

A path of Windows may start with a network prefix: two separators and the name of a server, or a
device prefix such as `\\?\`, which `UNC\` and the name of a server may follow. A server becomes the
authority of a URI, so its name is checked.

## Main definitions

* `isAbsolutePath`, `splitWindowsNetworkPath` — the functions, for any platform
* `NetworkPath` — what a network path consists of

## Main results

* `splitWindowsNetworkPath_eq_some_iff` — the function finds the parts of every network path
-/

namespace NgLog

namespace SourceLocation

/-- What depends on the platform: whether it is Windows, `std::isalpha` of its locale, and the
largest `std::size_t`. -/
structure Platform where
  windows : Bool
  isalpha : Byte → Bool
  sizeMax : ℕ

/-! ### The code -/

/-- `/`. -/
def slash : Byte := 0x2f

/-- `\`. -/
def backslash : Byte := 0x5c

/-- `IsPathSeparator`. -/
def isPathSeparator (c : Byte) : Bool := c = slash || c = backslash

/-- `IsAbsolutePath`. -/
def isAbsolutePath (p : Platform) (path : List Byte) : Bool :=
  let isPosixAbsolute := path.head? = some slash
  let isWindowsAbsolute :=
    match path with
    | drive :: colon :: separator :: _ =>
      p.isalpha drive && colon = 0x3a && (separator = backslash || separator = slash)
    | _ => false
  isPosixAbsolute || isWindowsAbsolute

/-- `IsUncSeparator`. -/
def isUncSeparator (p : Platform) (c : Byte) : Bool :=
  if p.windows then isPathSeparator c else c = backslash

/-- `ToLowerAscii`. -/
def toLowerAscii (c : Byte) : Byte := if 0x41 ≤ c ∧ c ≤ 0x5a then c - 0x41 + 0x61 else c

/-- `std::isalnum` of the classic locale. -/
def isalnum (c : Byte) : Bool :=
  0x30 ≤ c && c ≤ 0x39 || 0x41 ≤ c && c ≤ 0x5a || 0x61 ≤ c && c ≤ 0x7a

/-- `IsServerNameCharacter`. -/
def isServerNameCharacter (c : Byte) : Bool := isalnum c || c = 0x2d || c = 0x2e || c = 0x5f

/-- `kUncName`. -/
def kUncName : List Byte := bytes "unc"

/-- The end of `SplitWindowsNetworkPath`, from the start of the server on. -/
def splitServer (text : List Byte) : Option (Option (List Byte) × List Byte) :=
  let server := text.takeWhile fun c => !isPathSeparator c
  let rest := text.dropWhile fun c => !isPathSeparator c
  if server = [] ∨ rest = [] ∨ server.all isServerNameCharacter = false then none
  else some (some server, rest)

/-- `names_server`. -/
def namesServer (p : Platform) (devicePath : List Byte) : Bool :=
  kUncName.length < devicePath.length &&
    (devicePath.take kUncName.length).map toLowerAscii = kUncName &&
    (devicePath[kUncName.length]?).any (isUncSeparator p)

/-- The path after `\\?\` or `\\.\`, without its first two separators. -/
def devicePath (p : Platform) : List Byte → Option (List Byte)
  | kind :: separator :: path =>
    if (kind = 0x3f ∨ kind = 0x2e) ∧ isUncSeparator p separator then some path else none
  | _ => none

/-- `SplitWindowsNetworkPath`: the server, if there is one, and the rest. -/
def splitWindowsNetworkPath (p : Platform) : List Byte → Option (Option (List Byte) × List Byte)
  | first :: second :: path =>
    if isUncSeparator p first && isUncSeparator p second then
      match devicePath p path with
      | none => splitServer path
      | some path =>
        if namesServer p path then splitServer (path.drop (kUncName.length + 1))
        else some (none, path)
    else none
  | _ => none

/-! ### What a network path consists of -/

/-- The name of a server that a separator follows. -/
structure NamesServer (server rest : List Byte) : Prop where
  ne_nil : server ≠ []
  characters : ∀ c ∈ server, isServerNameCharacter c = true
  separator : rest.head?.any isPathSeparator = true

/-- A network path, its server if it has one, and the rest of it. -/
inductive NetworkPath (p : Platform) : List Byte → Option (List Byte) → List Byte → Prop
  | server {a b : Byte} {server rest : List Byte} (ha : isUncSeparator p a = true)
    (hb : isUncSeparator p b = true) (hplain : devicePath p (server ++ rest) = none)
    (hserver : NamesServer server rest) : NetworkPath p (a :: b :: (server ++ rest)) server rest
  | device {a b kind c : Byte} {rest : List Byte} (ha : isUncSeparator p a = true)
    (hb : isUncSeparator p b = true) (hkind : kind = 0x3f ∨ kind = 0x2e)
    (hc : isUncSeparator p c = true)
    (hplain : ∀ unc d path, rest = unc ++ d :: path → unc.map toLowerAscii = kUncName →
      isUncSeparator p d = false) : NetworkPath p (a :: b :: kind :: c :: rest) none rest
  | deviceServer {a b kind c d : Byte} {unc server rest : List Byte}
    (ha : isUncSeparator p a = true) (hb : isUncSeparator p b = true)
    (hkind : kind = 0x3f ∨ kind = 0x2e) (hc : isUncSeparator p c = true)
    (hunc : unc.map toLowerAscii = kUncName) (hd : isUncSeparator p d = true)
    (hserver : NamesServer server rest) :
    NetworkPath p (a :: b :: kind :: c :: (unc ++ d :: (server ++ rest))) server rest

theorem not_isPathSeparator {c : Byte} (h : isServerNameCharacter c = true) :
    isPathSeparator c = false := by
  by_contra hseparator
  rw [Bool.not_eq_false, isPathSeparator, Bool.or_eq_true, decide_eq_true_iff,
    decide_eq_true_iff] at hseparator
  rcases hseparator with rfl | rfl
  · exact absurd h (by decide)
  · exact absurd h (by decide)

/-- The server ends at the first separator. -/
theorem splitServer_eq_some_iff {text : List Byte} {parts : Option (List Byte) × List Byte} :
    splitServer text = some parts ↔
      ∃ server rest, text = server ++ rest ∧ NamesServer server rest ∧
      parts = (some server, rest) := by
  rw [splitServer]
  constructor
  · intro h
    split_ifs at h with hrefused
    obtain ⟨hserver, hrefused⟩ := not_or.mp hrefused
    obtain ⟨hrest, hcharacters⟩ := not_or.mp hrefused
    rw [Bool.not_eq_false, List.all_eq_true] at hcharacters
    refine ⟨_, _, List.takeWhile_append_dropWhile.symm, ⟨hserver, hcharacters, ?_⟩,
      (Option.some.inj h).symm⟩
    have hhead := List.head_dropWhile_not (fun c => !isPathSeparator c) hrest
    rw [List.head?_eq_some_head hrest, Option.any_some]
    simpa using hhead
  · rintro ⟨server, rest, rfl, hserver, rfl⟩
    obtain ⟨separator, following, rfl⟩ :=
      List.exists_cons_of_ne_nil fun h : rest = [] => by
        have hseparator := hserver.separator
        rw [h] at hseparator
        exact Bool.false_ne_true hseparator
    have hseparator : isPathSeparator separator = true := hserver.separator
    have hname : ∀ c ∈ server, (!isPathSeparator c) = true := fun c hc => by
      rw [not_isPathSeparator (hserver.characters c hc)]
      rfl
    have hstops : ¬(!isPathSeparator separator) = true := by
      rw [hseparator]
      exact Bool.false_ne_true
    rw [List.takeWhile_append_of_pos hname, List.dropWhile_append_of_pos hname,
      List.takeWhile_cons_of_neg (p := fun c => !isPathSeparator c) hstops,
      List.dropWhile_cons_of_neg (p := fun c => !isPathSeparator c) hstops, List.append_nil, if_neg]
    rintro (hnil | hnil | hcharacters)
    · exact hserver.ne_nil hnil
    · exact List.cons_ne_nil _ _ hnil
    · rw [List.all_eq_false] at hcharacters
      obtain ⟨c, hc, hother⟩ := hcharacters
      exact hother (hserver.characters c hc)

/-- A device path names a server after `unc` and a separator. -/
theorem namesServer_iff {p : Platform} {path : List Byte} :
    namesServer p path = true ↔ ∃ unc d tail, path = unc ++ d :: tail ∧
      unc.map toLowerAscii = kUncName ∧ isUncSeparator p d = true := by
  rw [namesServer, Bool.and_eq_true, Bool.and_eq_true, decide_eq_true_iff, decide_eq_true_iff]
  constructor
  · rintro ⟨⟨hlength, hunc⟩, hseparator⟩
    rw [List.getElem?_eq_getElem hlength, Option.any_some] at hseparator
    refine ⟨path.take kUncName.length, path[kUncName.length],
      path.drop (kUncName.length + 1), ?_, hunc, hseparator⟩
    rw [← List.drop_eq_getElem_cons hlength, List.take_append_drop]
  · rintro ⟨unc, d, tail, rfl, hunc, hseparator⟩
    have hlength : kUncName.length = unc.length := by rw [← hunc, List.length_map]
    rw [hlength, List.take_left, List.getElem?_append_right (Nat.le_refl _), Nat.sub_self,
      List.length_append, List.length_cons]
    exact ⟨⟨by omega, hunc⟩, hseparator⟩

theorem drop_unc {unc : List Byte} (hunc : unc.map toLowerAscii = kUncName) (d : Byte)
    (tail : List Byte) : (unc ++ d :: tail).drop (kUncName.length + 1) = tail := by
  have hlength : kUncName.length = unc.length := by rw [← hunc, List.length_map]
  rw [hlength, ← List.drop_drop, List.drop_left]
  rfl

theorem devicePath_eq_some_iff {p : Platform} {path rest : List Byte} :
    devicePath p path = some rest ↔ ∃ kind c, path = kind :: c :: rest ∧
      (kind = 0x3f ∨ kind = 0x2e) ∧ isUncSeparator p c = true := by
  constructor
  · intro h
    rcases path with _ | ⟨kind, _ | ⟨c, path⟩⟩
    · cases h
    · cases h
    rw [devicePath] at h
    split_ifs at h with hdevice
    exact ⟨kind, c, by rw [Option.some.inj h], hdevice.1, hdevice.2⟩
  · rintro ⟨kind, c, rfl, hkind, hc⟩
    exact if_pos ⟨hkind, hc⟩

/-- The function finds the parts of a network path, and of no other path. -/
theorem splitWindowsNetworkPath_eq_some_iff {p : Platform} {path : List Byte}
    {server : Option (List Byte)} {rest : List Byte} :
    splitWindowsNetworkPath p path = some (server, rest) ↔ NetworkPath p path server rest := by
  constructor
  · intro h
    rcases path with _ | ⟨a, _ | ⟨b, path⟩⟩
    · cases h
    · cases h
    rw [splitWindowsNetworkPath] at h
    split_ifs at h with hseparators
    obtain ⟨ha, hb⟩ := Bool.and_eq_true_iff.mp hseparators
    rcases hdevice : devicePath p path with _ | device
    · rw [hdevice] at h
      obtain ⟨server', rest', rfl, hserver, hparts⟩ := splitServer_eq_some_iff.mp h
      cases hparts
      exact .server ha hb hdevice hserver
    · rw [hdevice] at h
      obtain ⟨kind, c, rfl, hkind, hc⟩ := devicePath_eq_some_iff.mp hdevice
      dsimp only at h
      split_ifs at h with hnames
      · obtain ⟨unc, d, tail, rfl, hunc, hd⟩ := namesServer_iff.mp hnames
        rw [drop_unc hunc] at h
        obtain ⟨server', rest', rfl, hserver, hparts⟩ := splitServer_eq_some_iff.mp h
        cases hparts
        exact .deviceServer ha hb hkind hc hunc hd hserver
      · cases h
        refine .device ha hb hkind hc fun unc d tail hrest hunc => ?_
        by_contra hd
        exact hnames (namesServer_iff.mpr
          ⟨unc, d, tail, hrest, hunc, by rwa [Bool.not_eq_false] at hd⟩)
  · intro h
    cases h with
    | server ha hb hplain hserver =>
      rw [splitWindowsNetworkPath, if_pos (Bool.and_eq_true_iff.mpr ⟨ha, hb⟩), hplain]
      exact splitServer_eq_some_iff.mpr ⟨_, _, rfl, hserver, rfl⟩
    | device ha hb hkind hc hplain =>
      rw [splitWindowsNetworkPath, if_pos (Bool.and_eq_true_iff.mpr ⟨ha, hb⟩),
        devicePath_eq_some_iff.mpr ⟨_, _, rfl, hkind, hc⟩]
      refine if_neg fun hnames => ?_
      obtain ⟨unc, d, tail, hrest, hunc, hd⟩ := namesServer_iff.mp hnames
      rw [hplain unc d tail hrest hunc] at hd
      exact Bool.false_ne_true hd
    | deviceServer ha hb hkind hc hunc hd hserver =>
      rw [splitWindowsNetworkPath, if_pos (Bool.and_eq_true_iff.mpr ⟨ha, hb⟩),
        devicePath_eq_some_iff.mpr ⟨_, _, rfl, hkind, hc⟩]
      dsimp only
      rw [if_pos (namesServer_iff.mpr ⟨_, _, _, rfl, hunc, hd⟩), drop_unc hunc]
      exact splitServer_eq_some_iff.mpr ⟨_, _, rfl, hserver, rfl⟩

/-- A path that is left is not empty if it is absolute, or if a server precedes it. -/
theorem ne_nil_of_isAbsolutePath {p : Platform} {path : List Byte}
    (h : isAbsolutePath p path = true) : path ≠ [] := by
  rintro rfl
  exact Bool.false_ne_true h

theorem NetworkPath.rest_ne_nil {p : Platform} {path server rest : List Byte}
    (h : NetworkPath p path (some server) rest) : rest ≠ [] := by
  rintro rfl
  cases h with
  | server ha hb hplain hserver => exact Bool.false_ne_true hserver.separator
  | deviceServer ha hb hkind hc hunc hd hserver => exact Bool.false_ne_true hserver.separator

end SourceLocation

end NgLog
