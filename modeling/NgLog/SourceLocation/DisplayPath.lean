import NgLog.SourceLocation.FileLine

/-!
# Paths of source files for display

A stack trace shows a path relative to the working directory if it is below that, and otherwise a
long path without its middle components. `FormatDisplayPath` looks for the components to keep from
both ends of the path, and falls back to the last two if there is no middle or too little room.

## Main definitions

* `components` — the components of a path
* `advancePathComponents`, `retreatPathComponents` — the ends of the parts that are kept
* `displayForm`, `formatDisplayPath` — which form is shown, and the function

## Main results

* `advance_spec`, `retreat_spec` — no component is cut
* `formatDisplayPath_eq` — what is written, with a terminator within the buffer
* `components_middle` — what the form with an ellipsis in the middle keeps
-/

namespace NgLog

namespace SourceLocation

/-! ### The code -/

/-- `FindLastPathSeparator`: the position behind the separator, or zero if there is none. -/
def findLastPathSeparator (text : List Byte) : ℕ := findIfReverse isPathSeparator text

/-- The loop of `AdvancePathComponents`. -/
def advanceLoop (path : List Byte) : (count cursor : ℕ) → ℕ
  | 0, cursor => cursor
  | count + 1, cursor =>
    if cursor < path.length then
      let componentStart := cursor + ((path.drop cursor).takeWhile isPathSeparator).length
      let cursor := componentStart +
        ((path.drop componentStart).takeWhile fun c => !isPathSeparator c).length
      if cursor = componentStart then cursor else advanceLoop path count cursor
    else cursor

/-- `AdvancePathComponents`. -/
def advancePathComponents (path : List Byte) (count : ℕ) : ℕ := advanceLoop path count 0

/-- The loop of `RetreatPathComponents`. -/
def retreatLoop (path : List Byte) : (count cursor : ℕ) → ℕ
  | 0, cursor => cursor
  | count + 1, cursor =>
    if 0 < cursor then
      let nonSep := findIfReverse (fun c => !isPathSeparator c) (path.take cursor)
      if nonSep = 0 then cursor
      else retreatLoop path count (findIfReverse isPathSeparator (path.take nonSep))
    else cursor

/-- `RetreatPathComponents`. -/
def retreatPathComponents (path : List Byte) (count : ℕ) : ℕ := retreatLoop path count path.length

/-- `cwd_is_root`. -/
def cwdIsRoot (cwd : CString) : Bool :=
  cwd.length = 1 && isPathSeparator (cwd.byteAt 0) ||
    cwd.length = 3 && cwd.byteAt 1 = colon && isPathSeparator (cwd.byteAt 2)

/-- Where `rel` starts, if the path is below the working directory. -/
def relativeStart (path : List Byte) (cwd : Option CString) : Option ℕ :=
  cwd.bind fun cwd =>
    if cwd.byteAt 0 ≠ 0 ∧ cwd.length < path.length ∧ path.take cwd.length = cwd.text ∧
        (cwdIsRoot cwd = true ∨ (path[cwd.length]?).any isPathSeparator = true) then
      some (cwd.length + if cwdIsRoot cwd then 0 else 1)
    else none

/-- What `FormatDisplayPath` shows: the path from a position on, that with an ellipsis before it, or
the path without what is between two positions. -/
inductive DisplayForm
  | whole (start : ℕ)
  | tail (start : ℕ)
  | middle (prefixEnd suffixStart : ℕ)

def kCompactThreshold : ℕ := 40
def kMiddleEllipsis : List Byte := bytes "/.../"
def kLeadingEllipsis : List Byte := bytes ".../"

/-- The decisions of `FormatDisplayPath`. -/
def displayForm (path : List Byte) (cwd : Option CString)
    (prefixComponents suffixComponents outSize : ℕ) :
    DisplayForm :=
  match relativeStart path cwd with
  | some start => .whole start
  | none =>
    if path.length ≤ kCompactThreshold then .whole 0
    else
      let prefixEnd := advancePathComponents path prefixComponents
      let suffixStart := retreatPathComponents path suffixComponents
      if prefixComponents = 0 ∨ suffixComponents = 0 ∨ suffixStart ≤ prefixEnd then
        let lastSep := findLastPathSeparator path
        let secondLastSep :=
          if lastSep = 0 then 0 else findLastPathSeparator (path.take (lastSep - 1))
        .tail (if secondLastSep = 0 then lastSep else secondLastSep)
      else if prefixEnd + kMiddleEllipsis.length + (path.length - suffixStart) + 1 ≤ outSize then
        .middle prefixEnd suffixStart
      else .tail suffixStart

/-- A copy of as much of the text as there is room for, and a terminator. -/
def writeTruncated (text out : List Byte) : Option (List Byte) := do
  let buffer ← Buffer.append (text.take (min text.length (out.length - 1))) ⟨[], out⟩
  let buffer ← buffer.put 0
  return buffer.contents

/-- `write_leading_ellipsis_and_tail`. -/
def writeLeadingEllipsisAndTail (text out : List Byte) : Option (List Byte) := do
  let remaining := out.length - 1
  let buffer : Buffer := ⟨[], out⟩
  let fits := kLeadingEllipsis.length + 1 ≤ out.length
  let buffer ← if fits then buffer.append kLeadingEllipsis else some buffer
  let remaining := if fits then remaining - kLeadingEllipsis.length else remaining
  let buffer ← buffer.append (text.take (min text.length remaining))
  let buffer ← buffer.put 0
  return buffer.contents

/-- The form with an ellipsis in the middle. -/
def writeMiddle (front back out : List Byte) : Option (List Byte) := do
  let buffer ← Buffer.append front ⟨[], out⟩
  let buffer ← buffer.append kMiddleEllipsis
  let buffer ← buffer.append back
  let buffer ← buffer.put 0
  return buffer.contents

/-- `FormatDisplayPath`: the buffer, or nothing if it would write beyond that. -/
def formatDisplayPath (path : List Byte) (cwd : Option CString)
    (prefixComponents suffixComponents : ℕ) (out : List Byte) : Option (List Byte) :=
  if out.length = 0 then some out
  else
    match displayForm path cwd prefixComponents suffixComponents out.length with
    | .whole start => writeTruncated (path.drop start) out
    | .tail start => writeLeadingEllipsisAndTail (path.drop start) out
    | .middle prefixEnd suffixStart => writeMiddle (path.take prefixEnd) (path.drop suffixStart) out

/-! ### Components -/

/-- The components of a path: what stands between separators. -/
def components (path : List Byte) : List (List Byte) :=
  (path.splitOnP isPathSeparator).filter (· ≠ [])

variable {path front middle back out : List Byte} {c d : Byte}

@[simp] theorem components_nil : components [] = [] := rfl

/-- A separator separates components. -/
theorem components_append_cons (hc : isPathSeparator c = true) (front back : List Byte) :
    components (front ++ c :: back) = components front ++ components back := by
  rw [components, List.splitOnP_append_cons front back hc, List.filter_append]
  rfl

theorem components_cons (hc : isPathSeparator c = true) (back : List Byte) :
    components (c :: back) = components back := components_append_cons hc [] back

theorem components_concat (hc : isPathSeparator c = true) (front : List Byte) :
    components (front ++ [c]) = components front := by
  rw [components_append_cons hc, components_nil, List.append_nil]

/-- What is left out starts and ends with a separator, so no component is cut. -/
theorem components_middle (hfirst : middle.head?.any isPathSeparator = true)
    (hlast : middle.getLast?.any isPathSeparator = true) :
    components (front ++ middle ++ back) = components front ++ components middle ++
      components back := by
  cases middle with
  | nil => simp at hfirst
  | cons c middle =>
    have hc : isPathSeparator c = true := by simpa using hfirst
    rcases List.eq_nil_or_concat middle with rfl | ⟨middle, d, rfl⟩
    · rw [List.append_assoc, List.singleton_append, components_append_cons hc, components_cons hc,
        components_nil, List.append_nil]
    · have hd : isPathSeparator d = true := by simpa [List.getLast?_cons] using hlast
      have hsplit : front ++ c :: middle.concat d ++ back = front ++ c ::
          (middle ++ d :: back) := by simp
      rw [hsplit, components_append_cons hc, components_append_cons hd, components_cons hc,
        List.concat_eq_append, components_concat hd, List.append_assoc]

/-! ### The ends of the parts -/

variable {path : List Byte} {count cursor : ℕ}

/-- The first byte that does not satisfy a predicate. -/
theorem getElem?_length_takeWhile {p : Byte → Bool} {text : List Byte}
    (h : text[(text.takeWhile p).length]? = some c) : p c = false := by
  induction text with
  | nil => simp at h
  | cons d text ih =>
    by_cases hd : p d = true
    · rw [List.takeWhile_cons_of_pos hd, List.length_cons, List.getElem?_cons_succ] at h
      exact ih h
    · rw [List.takeWhile_cons_of_neg hd, List.length_nil, List.getElem?_cons_zero] at h
      obtain rfl := Option.some.inj h
      simpa using hd

/-- A run of bytes from a position on ends in the text, at a byte that does not satisfy the
predicate. -/
theorem run_spec (p : Byte → Bool) (h : cursor ≤ path.length) :
    cursor + ((path.drop cursor).takeWhile p).length ≤ path.length ∧
      ∀ c, path[cursor + ((path.drop cursor).takeWhile p).length]? = some c → p c = false := by
  constructor
  · have hle := (List.takeWhile_prefix p (l := path.drop cursor)).length_le
    rw [List.length_drop] at hle
    omega
  · intro c hc
    rw [← List.getElem?_drop] at hc
    exact getElem?_length_takeWhile hc

/-- The position is within the path, and a separator or nothing follows it. -/
structure EndsComponent (path : List Byte) (position : ℕ) : Prop where
  le_length : position ≤ path.length
  separator : ∀ c, path[position]? = some c → isPathSeparator c = true

/-- The position is within the path, and a separator or nothing precedes it. -/
structure StartsComponent (path : List Byte) (position : ℕ) : Prop where
  le_length : position ≤ path.length
  separator : ∀ c, 0 < position → path[position - 1]? = some c → isPathSeparator c = true

/-- One step over separators and a component. -/
theorem advance_step (h : cursor ≤ path.length) {componentStart : ℕ}
    (hstart : componentStart = cursor + ((path.drop cursor).takeWhile isPathSeparator).length) :
    EndsComponent path (componentStart +
      ((path.drop componentStart).takeWhile fun c => !isPathSeparator c).length) := by
  have hstartLe := (run_spec isPathSeparator h).1
  rw [← hstart] at hstartLe
  obtain ⟨hle, hhead⟩ := run_spec (fun c => !isPathSeparator c) hstartLe
  exact ⟨hle, fun c hc => by simpa using hhead c hc⟩

theorem EndsComponent.advanceLoop (h : EndsComponent path cursor) (count : ℕ) :
    EndsComponent path (advanceLoop path count cursor) := by
  induction count generalizing cursor with
  | zero => exact h
  | succ count ih =>
    have hnext := advance_step h.le_length rfl
    rw [SourceLocation.advanceLoop]
    split
    · simp only
      split
      · exact hnext
      · exact ih hnext
    · exact h

theorem endsComponent_advance (hcount : count ≠ 0) (hpath : path ≠ []) :
    EndsComponent path (advancePathComponents path count) := by
  obtain ⟨count, rfl⟩ := Nat.exists_eq_succ_of_ne_zero hcount
  have hnext := advance_step (Nat.zero_le path.length) rfl
  rw [advancePathComponents, advanceLoop, if_pos (List.length_pos_of_ne_nil hpath)]
  simp only
  split
  · exact hnext
  · exact hnext.advanceLoop count

/-- One step back over a component, whose last byte has been found. -/
theorem retreat_step {nonSep : ℕ} (h : nonSep ≤ path.length) :
    StartsComponent path (findIfReverse isPathSeparator (path.take nonSep)) := by
  have hle := findIfReverse_le isPathSeparator (path.take nonSep)
  rw [List.length_take] at hle
  refine ⟨by omega, fun c hpos hc => ?_⟩
  rcases findIfReverse_spec isPathSeparator (path.take nonSep) with
    ⟨hzero, _⟩ | ⟨front, d, back, hsplit, hd, _, hfound⟩
  · omega
  · have hget : path[front.length]? = some d := by
      rw [← List.take_append_drop nonSep path, hsplit]
      simp
    rw [hfound, Nat.add_sub_cancel, hget] at hc
    obtain rfl := Option.some.inj hc
    exact hd

theorem findIfReverse_take_le (p : Byte → Bool) (path : List Byte) (position : ℕ) :
    findIfReverse p (path.take position) ≤ path.length := by
  have hle := findIfReverse_le p (path.take position)
  rw [List.length_take] at hle
  omega

theorem StartsComponent.retreatLoop (h : StartsComponent path cursor) (count : ℕ) :
    StartsComponent path (retreatLoop path count cursor) := by
  induction count generalizing cursor with
  | zero => exact h
  | succ count ih =>
    rw [SourceLocation.retreatLoop]
    split
    · simp only
      split
      · exact h
      · exact ih (retreat_step (findIfReverse_take_le _ path cursor))
    · exact h

theorem startsComponent_retreat (hcount : count ≠ 0) (hpath : path ≠ []) :
    StartsComponent path (retreatPathComponents path count) := by
  obtain ⟨count, rfl⟩ := Nat.exists_eq_succ_of_ne_zero hcount
  rw [retreatPathComponents, retreatLoop, if_pos (List.length_pos_of_ne_nil hpath),
    List.take_length]
  simp only
  split
  · next hzero =>
    -- a path of separators only
    refine ⟨le_rfl, fun c _ hc => ?_⟩
    rcases findIfReverse_spec (fun c => !isPathSeparator c) path with
      ⟨_, hall⟩ | ⟨front, d, back, _, _, _, hfound⟩
    · simpa using hall c (List.mem_of_getElem? hc)
    · omega
  · exact (retreat_step (findIfReverse_le _ path)).retreatLoop count

/-- **What the form with an ellipsis in the middle keeps:** whole components from both ends. -/
theorem components_take_drop {prefixEnd suffixStart : ℕ} (hend : EndsComponent path prefixEnd)
    (hstart : StartsComponent path suffixStart) (hlt : prefixEnd < suffixStart) :
    ∃ middle, middle ≠ [] ∧ path = path.take prefixEnd ++ middle ++ path.drop suffixStart ∧
      components path =
        components (path.take prefixEnd) ++ components middle ++ components
          (path.drop suffixStart) := by
  have hle := hstart.le_length
  have hlength : ((path.take suffixStart).drop prefixEnd).length = suffixStart - prefixEnd := by
    rw [List.length_drop, List.length_take]
    omega
  have hsplit : path =
      path.take prefixEnd ++ (path.take suffixStart).drop prefixEnd ++ path.drop suffixStart := by
    conv => lhs; rw [← List.take_append_drop suffixStart path,
      ← List.take_append_drop prefixEnd (path.take suffixStart)]
    rw [List.take_take, Nat.min_eq_left hlt.le]
  refine ⟨(path.take suffixStart).drop prefixEnd, ?_, hsplit, ?_⟩
  · exact List.ne_nil_of_length_pos (by omega)
  · conv => lhs; rw [hsplit]
    refine components_middle ?_ ?_
    · obtain ⟨c, hc⟩ : ∃ c, path[prefixEnd]? = some c := ⟨_, List.getElem?_eq_getElem (by omega)⟩
      rw [List.head?_drop, List.getElem?_take_of_lt hlt, hc]
      simpa using hend.separator c hc
    · obtain ⟨c, hc⟩ : ∃ c, path[suffixStart - 1]? = some c :=
        ⟨_, List.getElem?_eq_getElem (by omega)⟩
      rw [List.getLast?_eq_getElem?, hlength, List.getElem?_drop,
        List.getElem?_take_of_lt (by omega),
        show prefixEnd + (suffixStart - prefixEnd - 1) = suffixStart - 1 by omega, hc]
      simpa using hstart.separator c (by omega) hc

/-! ### What is written -/

/-- The text that a form shows in a buffer of so many bytes. -/
def displayText (path : List Byte) (outSize : ℕ) : DisplayForm → List Byte
  | .whole start => (path.drop start).take (outSize - 1)
  | .tail start =>
    if kLeadingEllipsis.length + 1 ≤ outSize then
      kLeadingEllipsis ++ (path.drop start).take (outSize - 1 - kLeadingEllipsis.length)
    else (path.drop start).take (outSize - 1)
  | .middle prefixEnd suffixStart => path.take prefixEnd ++ kMiddleEllipsis ++ path.drop suffixStart

theorem writeTruncated_eq (text : List Byte) (h : 0 < out.length) :
    writeTruncated text out =
      some (text.take (out.length - 1) ++ 0 :: out.drop
        ((text.take (out.length - 1)).length + 1)) := by
  rw [writeTruncated, take_min]
  exact append_put_run (by rw [List.length_take]; omega)

/-- The text of the form with an ellipsis before the path. -/
theorem displayText_tail_length (start : ℕ) (h : 0 < out.length) :
    (displayText path out.length (.tail start)).length < out.length := by
  rw [displayText]
  split
  · rw [List.length_append, List.length_take]
    omega
  · rw [List.length_take]
    omega

theorem writeLeadingEllipsisAndTail_eq (start : ℕ) (h : 0 < out.length) :
    writeLeadingEllipsisAndTail (path.drop start) out =
      some (displayText path out.length (.tail start) ++
        0 :: out.drop ((displayText path out.length (.tail start)).length + 1)) := by
  have hlength : (displayText path out.length (.tail start)).length < out.length :=
    displayText_tail_length start h
  simp only [writeLeadingEllipsisAndTail, take_min, Option.bind_eq_bind]
  rw [displayText] at hlength ⊢
  by_cases hfits : kLeadingEllipsis.length + 1 ≤ out.length
  · rw [if_pos hfits] at hlength ⊢
    rw [if_pos hfits, if_pos hfits, ← append_put_run hlength, ← Buffer.append_append hlength.le]
    simp only [Option.bind_assoc]
    rfl
  · rw [if_neg hfits] at hlength ⊢
    rw [if_neg hfits, if_neg hfits, ← append_put_run hlength]
    rfl

theorem writeMiddle_eq {front back : List Byte}
    (h : (front ++ kMiddleEllipsis ++ back).length < out.length) :
    writeMiddle front back out =
      some (front ++ kMiddleEllipsis ++ back ++
        0 :: out.drop ((front ++ kMiddleEllipsis ++ back).length + 1)) := by
  have hfront : (front ++ kMiddleEllipsis).length ≤ out.length := by
    rw [List.length_append] at h
    omega
  rw [← append_put_run h, ← Buffer.append_append h.le, ← Buffer.append_append hfront]
  simp only [writeMiddle, Option.bind_eq_bind, Option.bind_assoc]
  rfl

/-- The form with an ellipsis in the middle is chosen only where it fits, between whole
components. -/
theorem displayForm_middle {cwd : Option CString}
    {prefixComponents suffixComponents outSize prefixEnd suffixStart : ℕ}
    (h : displayForm path cwd prefixComponents suffixComponents outSize =
      .middle prefixEnd suffixStart) :
    EndsComponent path prefixEnd ∧ StartsComponent path suffixStart ∧ prefixEnd < suffixStart ∧
      prefixEnd + kMiddleEllipsis.length + (path.length - suffixStart) + 1 ≤ outSize := by
  rw [displayForm] at h
  split at h
  · cases h
  · simp only at h
    split_ifs at h with hshort hkept hfits
    simp only [not_or, Nat.not_le] at hkept
    obtain ⟨hfront, hsuffix, hlt⟩ := hkept
    have hne : path ≠ [] := by
      rintro rfl
      exact hshort (Nat.zero_le _)
    cases h
    exact ⟨endsComponent_advance hfront hne, startsComponent_retreat hsuffix hne, hlt, hfits⟩

theorem displayText_length (path : List Byte) (cwd : Option CString)
    (prefixComponents suffixComponents : ℕ) (h : 0 < out.length) :
    (displayText path out.length
      (displayForm path cwd prefixComponents suffixComponents out.length)).length < out.length := by
  cases hform : displayForm path cwd prefixComponents suffixComponents out.length with
  | whole start =>
    rw [displayText, List.length_take]
    omega
  | tail start => exact displayText_tail_length start h
  | middle prefixEnd suffixStart =>
    obtain ⟨_, _, _, hfits⟩ := displayForm_middle hform
    rw [displayText]
    simp only [List.length_append, List.length_take, List.length_drop]
    omega

/-- **The buffer holds the text and a terminator**, whatever form is shown. -/
theorem formatDisplayPath_eq (path : List Byte) (cwd : Option CString)
    (prefixComponents suffixComponents : ℕ) (h : 0 < out.length) {form : DisplayForm}
    (hform : displayForm path cwd prefixComponents suffixComponents out.length = form) :
    formatDisplayPath path cwd prefixComponents suffixComponents out =
      some (displayText path out.length form ++
        0 :: out.drop ((displayText path out.length form).length + 1)) := by
  have hlength := displayText_length path cwd prefixComponents suffixComponents h
  rw [hform] at hlength
  rw [formatDisplayPath, if_neg (by omega), hform]
  cases form with
  | whole start => exact writeTruncated_eq _ h
  | tail start => exact writeLeadingEllipsisAndTail_eq start h
  | middle prefixEnd suffixStart => exact writeMiddle_eq hlength

end SourceLocation

end NgLog
