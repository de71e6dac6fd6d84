import Mathlib.Algebra.GroupWithZero.Nat
import Mathlib.Algebra.BigOperators.Group.List.Basic
import NgLog.SourceLocation.NetworkPaths
import NgLog.Support.Buffers
import NgLog.Support.PercentEncoding

/-!
# File URIs

`BuildFileUri` computes the length of a URI first, refuses it if it does not fit into the buffer,
and then writes the bytes. Signal handlers call it, so nothing checks the bounds while it writes:
the length has to be that of the bytes, with the same separators in the same cases.

## Main definitions

* `buildFileUri` — the function, with a buffer that no byte is written beyond
* `location` — what the encoded part of the URI stands for

## Main results

* `append_run`, `appendUriEncodedPath_run` — the writes, while there is room
* `getUriEncodedLength_spec`, `addLengths_spec` — the lengths, up to an overflow
* `buildFileUri_spec` — when the URI is written, and what it decodes to
-/

namespace NgLog

namespace SourceLocation

open PercentEncoding

/-! ### The code -/

/-- `IsUriPathCharacter`. -/
def isUriPathCharacter (c : Byte) : Bool :=
  isalnum c || c = 0x2d || c = 0x2e || c = 0x5f || c = 0x7e || c = slash || c = 0x3a

/-- The loop of `GetUriEncodedLength`. -/
def encodedLengthLoop (p : Platform) (length : ℕ) : List Byte → Option ℕ
  | [] => some length
  | c :: path =>
    let byteLength := if isPathSeparator c || isUriPathCharacter c then 1 else 3
    if p.sizeMax - byteLength < length then none
    else encodedLengthLoop p (length + byteLength) path

/-- `GetUriEncodedLength`. -/
def getUriEncodedLength (p : Platform) (path : List Byte) : Option ℕ := encodedLengthLoop p 0 path

/-- `AppendUriEncodedPath`. -/
def appendUriEncodedPath : List Byte → Buffer → Option Buffer
  | [], buffer => some buffer
  | c :: path, buffer =>
    (if c = backslash then buffer.put slash
    else if isUriPathCharacter c then buffer.put c
    else
      (buffer.put 0x25).bind fun buffer =>
        (buffer.put (hexDigit (c.toNat >>> 4))).bind fun buffer =>
          buffer.put (hexDigit (c.toNat &&& 0x0f))).bind (appendUriEncodedPath path)

/-- The calls of `add_length`. -/
def addLengths (p : Platform) (needed : ℕ) : List ℕ → Option ℕ
  | [] => some needed
  | length :: lengths =>
    if p.sizeMax - length < needed then none else addLengths p (needed + length) lengths

/-- `kPrefix`. -/
def kPrefix : List Byte := bytes "file://"

/-- `kLocalhost`. -/
def kLocalhost : List Byte := bytes "localhost"

/-- What `BuildFileUri` finds out before it computes a length: the path without a network prefix,
the base path if it is needed, and the authority. -/
structure Parts where
  path : List Byte
  base : Option (List Byte)
  authority : List Byte

/-- `need_separator`. -/
def Parts.needSeparator (parts : Parts) : Bool :=
  parts.base.any fun base => !(base.getLast?.any isPathSeparator)

/-- `first_segment`. -/
def Parts.firstSegment (parts : Parts) : List Byte := parts.base.getD parts.path

/-- The first half of `BuildFileUri`, which fails without an absolute path. -/
def findParts (p : Platform) (path : List Byte) (basePath host : Option CString) : Option Parts :=
  let network := splitWindowsNetworkPath p path
  let server := network.bind Prod.fst
  let path := (network.map Prod.snd).getD path
  let host := if server.isSome then none else host
  let pathIsAbsolute := server.isSome || isAbsolutePath p path
  let base := if pathIsAbsolute then [] else (basePath.map CString.text).getD []
  let needBase := !pathIsAbsolute && 0 < base.length && isAbsolutePath p base
  let authority :=
    match server with
    | some server => server
    | none =>
      match host with
      | some host => if host.text ≠ [] then host.text else kLocalhost
      | none => kLocalhost
  if !pathIsAbsolute && !needBase then none
  else some ⟨path, if needBase then some base else none, authority⟩

/-- The lengths that the second half of `BuildFileUri` adds up, given `need_authority_separator` and
the encoded lengths. -/
def neededLengths (parts : Parts) (needAuthoritySeparator : Bool)
    (encodedBaseLen encodedPathLen : ℕ) : List ℕ :=
  [kPrefix.length, parts.authority.length] ++ (if needAuthoritySeparator then [1] else []) ++
    (if parts.base.isSome then [encodedBaseLen] ++ if parts.needSeparator then [1] else []
    else []) ++
    [encodedPathLen, 1]

/-- The writes of `BuildFileUri`. -/
def writeUri (parts : Parts) (needAuthoritySeparator : Bool) (buffer : Buffer) : Option Buffer :=
  (buffer.append kPrefix).bind fun buffer =>
    (buffer.append parts.authority).bind fun buffer =>
      (if needAuthoritySeparator then buffer.put slash else some buffer).bind fun buffer =>
        (match parts.base with
        | none => some buffer
        | some base =>
          (appendUriEncodedPath base buffer).bind fun buffer =>
            if parts.needSeparator then buffer.put slash else some buffer).bind fun buffer =>
          (appendUriEncodedPath parts.path buffer).bind fun buffer => buffer.put 0

/-- `BuildFileUri`: its result and the buffer, or nothing if it would access memory out of
bounds. -/
def buildFileUri (p : Platform) (path : List Byte) (basePath host : Option CString)
    (out : List Byte) : Option (Bool × List Byte) :=
  match findParts p path basePath host with
  | none => some (false, out)
  | some parts =>
    parts.firstSegment.head?.bind fun first =>
      let needAuthoritySeparator := !isPathSeparator first
      let encodedBaseLen :=
        match parts.base with
        | none => some 0
        | some base => getUriEncodedLength p base
      match encodedBaseLen, getUriEncodedLength p parts.path with
      | some encodedBaseLen, some encodedPathLen =>
        match addLengths p 0
          (neededLengths parts needAuthoritySeparator encodedBaseLen encodedPathLen) with
        | none => some (false, out)
        | some needed =>
          if out.length < needed then some (false, out)
          else (writeUri parts needAuthoritySeparator ⟨[], out⟩).map fun buffer =>
            (true, buffer.written ++ buffer.rest)
      | _, _ => some (false, out)

/-! ### Writing -/

/-- Backslashes separate the components of a path like slashes, which a URI has only. -/
def toSlash (c : Byte) : Byte := if c = backslash then slash else c

/-- The encoding of a path. -/
def uriEncode (path : List Byte) : List Byte := encode isUriPathCharacter (path.map toSlash)

theorem uriEncode_append (path path' : List Byte) :
    uriEncode (path ++ path') = uriEncode path ++ uriEncode path' := by
  rw [uriEncode, List.map_append, encode_append]
  rfl

theorem uriEncode_cons (c : Byte) (path : List Byte) :
    uriEncode (c :: path) = uriEncode [c] ++ uriEncode path :=
  uriEncode_append [c] path

theorem uriEncode_slash : uriEncode [slash] = [slash] := by decide +kernel

theorem decode_uriEncode (path : List Byte) : decode (uriEncode path) = path.map toSlash := by
  have hround := @decode_encode isUriPathCharacter (by decide) (path.map toSlash) []
  rwa [List.append_nil, decode, List.append_nil] at hround

/-- The writes of an escape. -/
theorem put_three {a b c : Byte} {buffer : Buffer}
    (h : [a, b, c].length ≤ buffer.rest.length) :
    ((buffer.put a).bind fun buffer => (buffer.put b).bind fun buffer => buffer.put c) =
      some (buffer.advance [a, b, c]) := by
  have hwrites := (Buffer.writes_put a).bind ((Buffer.writes_put b).bind (Buffer.writes_put c))
  exact hwrites buffer h

/-- The writes for one byte of a path. -/
theorem appendUriEncodedPath_cons {c : Byte} {path : List Byte} {buffer : Buffer}
    (h : (uriEncode [c]).length ≤ buffer.rest.length) :
    appendUriEncodedPath (c :: path) buffer =
      appendUriEncodedPath path (buffer.advance (uriEncode [c])) := by
  rw [appendUriEncodedPath]
  have hencoded : uriEncode [c] =
      if isUriPathCharacter (toSlash c) then [toSlash c] else escape (toSlash c) := by
    rw [uriEncode, List.map_singleton, encode_cons, encode_nil, List.append_nil]
  by_cases hbackslash : c = backslash
  · subst hbackslash
    have hslash : uriEncode [backslash] = [slash] := by decide +kernel
    rw [hslash, List.length_singleton] at h
    rw [if_pos rfl, Buffer.put_run h, Option.bind_some, hslash]
  · rw [toSlash, if_neg hbackslash] at hencoded
    rw [if_neg hbackslash]
    by_cases hkept : isUriPathCharacter c = true
    · rw [if_pos hkept] at hencoded
      rw [hencoded, List.length_singleton] at h
      rw [if_pos hkept, Buffer.put_run h, Option.bind_some, hencoded]
    · rw [if_neg hkept, escape] at hencoded
      have hhigh : c.toNat >>> 4 = c.toNat / 16 := Nat.shiftRight_eq_div_pow _ 4
      have hlow : c.toNat &&& 0x0f = c.toNat % 16 := Nat.and_two_pow_sub_one_eq_mod _ 4
      rw [hencoded] at h
      rw [if_neg hkept, hencoded, hhigh, hlow, put_three h, Option.bind_some]

/-- The writes for a path. -/
theorem appendUriEncodedPath_run {path : List Byte} {buffer : Buffer}
    (h : (uriEncode path).length ≤ buffer.rest.length) :
    appendUriEncodedPath path buffer = some (buffer.advance (uriEncode path)) := by
  induction path generalizing buffer with
  | nil => rw [appendUriEncodedPath, uriEncode, List.map_nil, encode_nil, Buffer.advance_nil]
  | cons c path ih =>
    rw [uriEncode_cons, List.length_append] at h
    rw [appendUriEncodedPath_cons (by omega), ih, ← Buffer.advance_append, ← uriEncode_cons]
    rw [Buffer.length_advance]
    omega

/-! ### Lengths -/

theorem length_uriEncode_singleton (c : Byte) :
    (uriEncode [c]).length = if isPathSeparator c || isUriPathCharacter c then 1 else 3 := by
  rw [uriEncode, List.map_singleton, encode_cons, encode_nil, List.append_nil, toSlash]
  by_cases hbackslash : c = backslash
  · subst hbackslash
    decide +kernel
  · have hslash : c = slash → isUriPathCharacter c = true := fun h => by
      rw [h]
      decide
    rw [if_neg hbackslash, isPathSeparator]
    by_cases hkept : isUriPathCharacter c = true
    · rw [if_pos hkept, hkept, Bool.or_true, if_pos rfl]
      rfl
    · have hother : (decide (c = slash) || decide (c = backslash)) = false := by
        rw [Bool.or_eq_false_iff, decide_eq_false_iff_not, decide_eq_false_iff_not]
        exact ⟨mt hslash hkept, hbackslash⟩
      rw [if_neg hkept, hother, Bool.false_or, if_neg hkept]
      rfl

theorem encodedLengthLoop_spec (p : Platform) (path : List Byte) (length : ℕ) :
    match encodedLengthLoop p length path with
    | some n => n = length + (uriEncode path).length
    | none => p.sizeMax < length + (uriEncode path).length := by
  induction path generalizing length with
  | nil => rfl
  | cons c path ih =>
    have hcons := congrArg List.length (uriEncode_cons c path)
    rw [List.length_append, length_uriEncode_singleton] at hcons
    rw [encodedLengthLoop, hcons]
    generalize (if isPathSeparator c || isUriPathCharacter c then 1 else 3) = byteLength
    split_ifs with hoverflow
    · dsimp only
      omega
    · have hloop := ih (length + byteLength)
      rwa [Nat.add_assoc] at hloop

/-- The length of an encoded path, which is larger than any size if it is not given. -/
theorem getUriEncodedLength_spec (p : Platform) (path : List Byte) :
    match getUriEncodedLength p path with
    | some n => n = (uriEncode path).length
    | none => p.sizeMax < (uriEncode path).length := by
  have hloop := encodedLengthLoop_spec p path 0
  rwa [Nat.zero_add] at hloop

/-- The sum of the lengths, which is larger than any size if it is not given. -/
theorem addLengths_spec (p : Platform) (lengths : List ℕ) (needed : ℕ) :
    match addLengths p needed lengths with
    | some n => n = needed + lengths.sum
    | none => p.sizeMax < needed + lengths.sum := by
  induction lengths generalizing needed with
  | nil => rfl
  | cons length lengths ih =>
    rw [addLengths, List.sum_cons]
    split_ifs with hoverflow
    · dsimp only
      omega
    · have hrest := ih (needed + length)
      rwa [Nat.add_assoc] at hrest

/-! ### The parts of a URI -/

/-- Whether a path starts with a separator. -/
def StartsWithSeparator (path : List Byte) : Prop := path.head?.any isPathSeparator = true

/-- Whether a path ends with a separator. -/
def EndsWithSeparator (path : List Byte) : Prop := path.getLast?.any isPathSeparator = true

instance decidableStarts (path : List Byte) : Decidable (StartsWithSeparator path) :=
  inferInstanceAs (Decidable (_ = true))

instance decidableEnds (path : List Byte) : Decidable (EndsWithSeparator path) :=
  inferInstanceAs (Decidable (_ = true))

/-- A path that is rooted: with a separator before it if it does not start with one. -/
def rooted (path : List Byte) : List Byte :=
  if StartsWithSeparator path then path else slash :: path

/-- A path below a base path, with a separator between them if the base path does not end with
one. -/
def join (base path : List Byte) : List Byte :=
  base ++ (if EndsWithSeparator base then [] else [slash]) ++ path

/-- What the encoded part of the URI stands for. -/
def Parts.location (parts : Parts) : List Byte :=
  rooted (parts.base.elim parts.path fun base => join base parts.path)

/-- The URI. -/
def Parts.uri (parts : Parts) : List Byte :=
  kPrefix ++ parts.authority ++ uriEncode parts.location

theorem uriEncode_rooted {path : List Byte} {first : Byte} (h : path.head? = some first) :
    uriEncode (rooted path) =
      (if !isPathSeparator first then [slash] else []) ++ uriEncode path := by
  have hstarts : StartsWithSeparator path ↔ isPathSeparator first = true := by
    rw [StartsWithSeparator, h, Option.any_some]
  rw [rooted]
  cases hfirst : isPathSeparator first with
  | false =>
    rw [if_neg (by rw [hstarts, hfirst]; exact Bool.false_ne_true), uriEncode_cons,
      uriEncode_slash]
    rfl
  | true =>
    rw [if_pos (hstarts.mpr hfirst)]
    rfl

theorem uriEncode_join (base path : List Byte) :
    uriEncode (join base path) = uriEncode base ++
      (if !(base.getLast?.any isPathSeparator) then [slash] else []) ++ uriEncode path := by
  rw [join, uriEncode_append, uriEncode_append]
  cases hlast : base.getLast?.any isPathSeparator with
  | false =>
    have hends : ¬EndsWithSeparator base := by
      rw [EndsWithSeparator, hlast]
      exact Bool.false_ne_true
    rw [if_neg hends, uriEncode_slash]
    rfl
  | true =>
    have hends : EndsWithSeparator base := hlast
    rw [if_pos hends]
    rfl

theorem head?_join {base : List Byte} {first : Byte} (h : base.head? = some first)
    (path : List Byte) : (join base path).head? = some first := by
  obtain ⟨rest, rfl⟩ := List.head?_eq_some_iff.mp h
  rfl

section Parts

variable {parts : Parts} {first : Byte}

/-- The separator before the first segment, as it is written. -/
def authoritySeparator (first : Byte) : List Byte := if !isPathSeparator first then [slash] else []

/-- The base path with what follows it, as it is written. -/
def Parts.encodedBase (parts : Parts) : List Byte :=
  parts.base.elim [] fun base => uriEncode base ++ if parts.needSeparator then [slash] else []

/-- The encoded part as it is written. -/
theorem Parts.uriEncode_location (hfirst : parts.firstSegment.head? = some first) :
    uriEncode parts.location =
      authoritySeparator first ++ parts.encodedBase ++ uriEncode parts.path := by
  obtain ⟨path, base, authority⟩ := parts
  cases base with
  | none =>
    have hpath : path.head? = some first := hfirst
    rw [location, Option.elim_none, uriEncode_rooted hpath, encodedBase, Option.elim_none,
      List.append_nil]
    rfl
  | some base =>
    have hbase : base.head? = some first := hfirst
    rw [location, Option.elim_some, uriEncode_rooted (head?_join hbase path), uriEncode_join,
      encodedBase, Option.elim_some]
    simp only [List.append_assoc]
    rfl

theorem Parts.uri_eq (hfirst : parts.firstSegment.head? = some first) :
    parts.uri = kPrefix ++ (parts.authority ++ (authoritySeparator first ++
      (parts.encodedBase ++ uriEncode parts.path))) := by
  rw [uri, uriEncode_location hfirst]
  simp only [List.append_assoc]

/-- An optional separator. -/
theorem put_if {b : Bool} {buffer : Buffer}
    (h : (if b then [slash] else []).length ≤ buffer.rest.length) :
    (if b then buffer.put slash else some buffer) =
      some (buffer.advance (if b then [slash] else [])) := by
  cases b with
  | false =>
    rw [if_neg Bool.false_ne_true, if_neg Bool.false_ne_true, Buffer.advance_nil]
  | true =>
    rw [if_pos rfl] at h
    rw [if_pos rfl, if_pos rfl, Buffer.put_run h]

/-- The writes of the base path. -/
theorem writeBase_run {buffer : Buffer} (h : parts.encodedBase.length ≤ buffer.rest.length) :
    (match parts.base with
      | none => some buffer
      | some base =>
        (appendUriEncodedPath base buffer).bind fun buffer =>
          if parts.needSeparator then buffer.put slash else some buffer) =
      some (buffer.advance parts.encodedBase) := by
  rw [Parts.encodedBase] at h ⊢
  cases hbase : parts.base with
  | none => rw [Option.elim_none, Buffer.advance_nil]
  | some base =>
    rw [hbase, Option.elim_some, List.length_append] at h
    dsimp only
    rw [appendUriEncodedPath_run (by omega), Option.bind_some, put_if, ← Buffer.advance_append,
      Option.elim_some]
    rw [Buffer.length_advance]
    omega

/-- The writes, while the URI and its terminator fit. -/
theorem writeUri_run (hfirst : parts.firstSegment.head? = some first) {buffer : Buffer}
    (h : parts.uri.length + 1 ≤ buffer.rest.length) :
    writeUri parts (!isPathSeparator first) buffer = some (buffer.advance (parts.uri ++ [0])) := by
  rw [Parts.uri_eq hfirst] at h ⊢
  simp only [List.length_append, authoritySeparator] at h
  rw [writeUri, Buffer.append_run (by omega), Option.bind_some, Buffer.append_run, Option.bind_some,
    put_if, Option.bind_some, writeBase_run, Option.bind_some, appendUriEncodedPath_run,
    Option.bind_some, Buffer.put_run]
  · simp only [← Buffer.advance_append, List.append_assoc]
    rfl
  all_goals
    simp only [Buffer.length_advance]
    omega

/-- The lengths that are added up are those of the parts. -/
theorem sum_neededLengths (hfirst : parts.firstSegment.head? = some first) :
    (neededLengths parts (!isPathSeparator first)
      (parts.base.elim 0 fun base => (uriEncode base).length) (uriEncode parts.path).length).sum =
        parts.uri.length + 1 := by
  rw [Parts.uri_eq hfirst, neededLengths]
  simp only [List.sum_append, List.length_append, List.sum_cons, List.sum_nil]
  have hseparator : (if !isPathSeparator first then [1] else []).sum =
      (authoritySeparator first).length := by
    rw [authoritySeparator]
    cases isPathSeparator first <;> rfl
  have hbase : (if parts.base.isSome = true then
      [parts.base.elim 0 fun base => (uriEncode base).length] ++
        if parts.needSeparator = true then [1] else [] else []).sum = parts.encodedBase.length := by
    rw [Parts.encodedBase]
    cases parts.base with
    | none => rfl
    | some base =>
      rw [Option.isSome_some, if_pos rfl, List.sum_append, Option.elim_some, Option.elim_some,
        List.length_append]
      cases parts.needSeparator <;> rfl
  rw [hseparator, hbase]
  omega

/-- The second half of the function: the URI is written if it fits. -/
theorem buildFileUri_parts {p : Platform} {path : List Byte} {basePath host : Option CString}
    {out : List Byte} (hparts : findParts p path basePath host = some parts)
    (hfirst : parts.firstSegment.head? = some first) (hsize : out.length ≤ p.sizeMax) :
    buildFileUri p path basePath host out =
      if parts.uri.length + 1 ≤ out.length then
        some (true, parts.uri ++ [0] ++ out.drop (parts.uri.length + 1))
      else some (false, out) := by
  have hsum := sum_neededLengths hfirst
  have htotal : parts.encodedBase.length + (uriEncode parts.path).length ≤ parts.uri.length := by
    rw [Parts.uri_eq hfirst]
    simp only [List.length_append]
    omega
  have hpath := getUriEncodedLength_spec p parts.path
  have hbase : match (match parts.base with
      | none => some 0
      | some base => getUriEncodedLength p base) with
    | some n => n = parts.base.elim 0 fun base => (uriEncode base).length
    | none => p.sizeMax < parts.encodedBase.length := by
    rw [Parts.encodedBase]
    cases hparts : parts.base with
    | none => rfl
    | some base =>
      have hencoded := getUriEncodedLength_spec p base
      rw [Option.elim_some, Option.elim_some, List.length_append]
      dsimp only
      cases hlength : getUriEncodedLength p base with
      | none =>
        rw [hlength] at hencoded
        exact Nat.lt_of_lt_of_le hencoded (Nat.le_add_right ..)
      | some n =>
        rw [hlength] at hencoded
        exact hencoded
  rw [buildFileUri, hparts]
  dsimp only
  rw [hfirst, Option.bind_some]
  generalize (match parts.base with
      | none => some 0
      | some base => getUriEncodedLength p base) = encodedBaseLen at hbase ⊢
  cases encodedBaseLen with
  | none =>
    have hlarge : p.sizeMax < parts.encodedBase.length := hbase
    rw [if_neg (by omega)]
  | some encodedBaseLen =>
    cases hencoded : getUriEncodedLength p parts.path with
    | none =>
      rw [hencoded] at hpath
      rw [if_neg (by dsimp only at hpath; omega)]
    | some encodedPathLen =>
      rw [hencoded] at hpath
      obtain rfl : encodedBaseLen = _ := hbase
      obtain rfl : encodedPathLen = _ := hpath
      have hadded := addLengths_spec p (neededLengths parts (!isPathSeparator first)
        (parts.base.elim 0 fun base => (uriEncode base).length) (uriEncode parts.path).length) 0
      rw [hsum, Nat.zero_add] at hadded
      dsimp only
      cases hneeded : addLengths p 0 (neededLengths parts (!isPathSeparator first)
        (parts.base.elim 0 fun base => (uriEncode base).length)
        (uriEncode parts.path).length) with
      | none =>
        rw [hneeded] at hadded
        rw [if_neg (by dsimp only at hadded; omega)]
      | some needed =>
        rw [hneeded] at hadded
        obtain rfl : needed = _ := hadded
        dsimp only
        by_cases hfits : parts.uri.length + 1 ≤ out.length
        · rw [if_neg (Nat.not_lt.mpr hfits), if_pos hfits, writeUri_run hfirst hfits,
            Option.map_some]
          simp only [Buffer.advance, List.nil_append, List.length_append, List.length_singleton]
        · rw [if_pos (Nat.lt_of_not_le hfits), if_neg hfits]

end Parts

/-! ### The whole function -/

/-- The server that a path names. -/
def networkServer (p : Platform) (path : List Byte) : Option (List Byte) :=
  (splitWindowsNetworkPath p path).bind Prod.fst

/-- A path without its network prefix. -/
def networkRest (p : Platform) (path : List Byte) : List Byte :=
  ((splitWindowsNetworkPath p path).map Prod.snd).getD path

/-- A path is absolute without its network prefix, or on its server. -/
def IsAbsolute (p : Platform) (path : List Byte) : Prop :=
  networkServer p path ≠ none ∨ isAbsolutePath p (networkRest p path) = true

instance decidableIsAbsolute (p : Platform) (path : List Byte) : Decidable (IsAbsolute p path) :=
  instDecidableOr

/-- The text of an optional string. -/
def textOf (s : Option CString) : List Byte := (s.map CString.text).getD []

/-- The authority: the server of the path, or the host if one is given. -/
def authority (p : Platform) (path : List Byte) (host : Option CString) : List Byte :=
  (networkServer p path).getD (if textOf host = [] then kLocalhost else textOf host)

/-- The path that the URI locates. -/
def location (p : Platform) (path : List Byte) (basePath : Option CString) : List Byte :=
  rooted (if IsAbsolute p path then networkRest p path
    else join (textOf basePath) (networkRest p path))

/-- The rest of a path on a server is not empty. -/
theorem networkRest_ne_nil {p : Platform} {path server : List Byte}
    (h : networkServer p path = some server) : networkRest p path ≠ [] := by
  obtain ⟨⟨server', rest⟩, hsplit, hserver⟩ := Option.bind_eq_some_iff.mp h
  obtain rfl : server' = some server := hserver
  rw [networkRest, hsplit]
  exact (splitWindowsNetworkPath_eq_some_iff.mp hsplit).rest_ne_nil

/-- The parts of a path on a server. -/
theorem findParts_server {p : Platform} {path server : List Byte}
    (h : networkServer p path = some server) (basePath host : Option CString) :
    findParts p path basePath host = some ⟨networkRest p path, none, server⟩ := by
  rw [networkServer] at h
  simp only [findParts, h, Option.isSome_some, Bool.true_or, Bool.not_true, Bool.false_and,
    Bool.false_eq_true, if_false]
  rfl

/-- The host as the code chooses it. -/
theorem authority_eq {p : Platform} {path : List Byte} (h : networkServer p path = none)
    (host : Option CString) :
    (match host with
      | some host => if host.text ≠ [] then host.text else kLocalhost
      | none => kLocalhost) = authority p path host := by
  rw [authority, h, Option.getD_none]
  cases host with
  | none => rfl
  | some host => exact ite_not ..

/-- The parts of a path on no server: the path is absolute, or it is below the base path. -/
theorem findParts_local {p : Platform} {path : List Byte} (h : networkServer p path = none)
    (basePath host : Option CString) :
    findParts p path basePath host =
      if isAbsolutePath p (networkRest p path) = true then
        some ⟨networkRest p path, none, authority p path host⟩
      else if isAbsolutePath p (textOf basePath) = true then
        some ⟨networkRest p path, some (textOf basePath), authority p path host⟩
      else none := by
  rw [← authority_eq h host]
  rw [networkServer] at h
  have hrest : ((splitWindowsNetworkPath p path).map Prod.snd).getD path = networkRest p path := rfl
  have hbase : (basePath.map CString.text).getD [] = textOf basePath := rfl
  simp only [findParts, h, hrest, hbase, Option.isSome_none, Bool.false_or, Bool.false_eq_true,
    if_false]
  cases isAbsolutePath p (networkRest p path) with
  | true =>
    simp only [Bool.not_true, Bool.false_and, Bool.false_eq_true, if_false, if_true]
  | false =>
    simp only [Bool.false_eq_true, if_false, Bool.not_false, Bool.true_and]
    cases habsolute : isAbsolutePath p (textOf basePath) with
    | true =>
      have hpos : 0 < (textOf basePath).length :=
        List.length_pos_iff.mpr (ne_nil_of_isAbsolutePath habsolute)
      simp only [hpos, decide_true, Bool.and_true, Bool.not_true, Bool.false_eq_true, if_false,
        if_true]
    | false => simp only [Bool.and_false, Bool.not_false, if_true, Bool.false_eq_true, if_false]

/-- The first half of the function. -/
theorem findParts_spec (p : Platform) (path : List Byte) (basePath host : Option CString) :
    if IsAbsolute p path ∨ isAbsolutePath p (textOf basePath) = true then
      ∃ parts first, findParts p path basePath host = some parts ∧
        parts.firstSegment.head? = some first ∧ parts.authority = authority p path host ∧
          parts.location = location p path basePath
    else findParts p path basePath host = none := by
  have hhead : ∀ text : List Byte, text ≠ [] → ∃ first, text.head? = some first := by
    intro text hne
    obtain ⟨first, rest, rfl⟩ := List.exists_cons_of_ne_nil hne
    exact ⟨first, rfl⟩
  rcases hserver : networkServer p path with _ | server
  · rw [findParts_local hserver]
    have habsolute : IsAbsolute p path ↔ isAbsolutePath p (networkRest p path) = true := by
      rw [IsAbsolute, hserver]
      simp
    by_cases hpath : isAbsolutePath p (networkRest p path) = true
    · obtain ⟨first, hfirst⟩ := hhead _ (ne_nil_of_isAbsolutePath hpath)
      rw [if_pos (.inl (habsolute.mpr hpath)), if_pos hpath]
      refine ⟨_, first, rfl, hfirst, rfl, ?_⟩
      rw [location, if_pos (habsolute.mpr hpath)]
      rfl
    · by_cases hbase : isAbsolutePath p (textOf basePath) = true
      · obtain ⟨first, hfirst⟩ := hhead _ (ne_nil_of_isAbsolutePath hbase)
        rw [if_pos (.inr hbase), if_neg hpath, if_pos hbase]
        refine ⟨_, first, rfl, hfirst, rfl, ?_⟩
        rw [location, if_neg (mt habsolute.mp hpath)]
        rfl
      · rw [if_neg fun h => h.elim (mt habsolute.mp hpath) hbase, if_neg hpath, if_neg hbase]
  · have habsolute : IsAbsolute p path := .inl (by rw [hserver]; exact Option.some_ne_none _)
    obtain ⟨first, hfirst⟩ := hhead _ (networkRest_ne_nil hserver)
    rw [if_pos (.inl habsolute), findParts_server hserver]
    refine ⟨_, first, rfl, hfirst, ?_, ?_⟩
    · rw [authority, hserver]
      rfl
    · rw [location, if_pos habsolute]
      rfl

/-- For every platform, path, base path, host and buffer: the URI is written, and a NUL byte after
it, if the path or the base path is absolute and the buffer has room for both. Otherwise the buffer
is left as it is. The encoded part stands for the path, or for the path below the base path, with
slashes instead of backslashes. -/
theorem buildFileUri_spec (p : Platform) (path : List Byte) (basePath host : Option CString)
    {out : List Byte} (hsize : out.length ≤ p.sizeMax) :
    let encoded := uriEncode (location p path basePath)
    let uri := kPrefix ++ authority p path host ++ encoded
    Escaped isUriPathCharacter encoded ∧
      decode encoded = (location p path basePath).map toSlash ∧
      buildFileUri p path basePath host out =
        if (IsAbsolute p path ∨ isAbsolutePath p (textOf basePath) = true) ∧
            uri.length + 1 ≤ out.length then
          some (true, uri ++ [0] ++ out.drop (uri.length + 1))
        else some (false, out) := by
  refine ⟨escaped_encode _, decode_uriEncode _, ?_⟩
  have hparts := findParts_spec p path basePath host
  by_cases habsolute : IsAbsolute p path ∨ isAbsolutePath p (textOf basePath) = true
  · rw [if_pos habsolute] at hparts
    obtain ⟨parts, first, hparts, hfirst, hauthority, hlocation⟩ := hparts
    rw [buildFileUri_parts hparts hfirst hsize, Parts.uri, hauthority, hlocation]
    simp only [habsolute, true_and]
  · rw [if_neg habsolute] at hparts
    rw [if_neg fun h => habsolute h.1, buildFileUri, hparts]

/-- A path below a base path, with a space to escape. -/
theorem buildFileUri_spec_base :
    buildFileUri ⟨false, isalnum, 100⟩ (bytes "a b.cc")
      (some ⟨bytes "/src", by decide +kernel⟩) none
        (List.replicate 31 1) =
      some (true, bytes "file://localhost/src/a%20b.cc" ++ [0, 1]) :=
  (buildFileUri_spec ⟨false, isalnum, 100⟩ (bytes "a b.cc")
    (some ⟨bytes "/src", by decide +kernel⟩) none (by decide +kernel)).2.2.trans (by decide +kernel)

end SourceLocation

end NgLog
