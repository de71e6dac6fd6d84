import NgLog.Experimental.Scopes

/-!
# Several strings and vectors

A message stores its text in the first string only, or appends it to the first vector only. `Send`
copies it to the others. In the end each string holds the text, and each vector has got the text as
often as it has been given.

## Main results

* `send_strings` — the strings that a message is stored in
* `send_vectors` — the vectors that it is appended to
-/

namespace NgLog

namespace Experimental

open Unwinding

variable {σ ε : Type}

/-! ### The copies -/

/-- Copying the text of a string to others. -/
theorem foldl_setString {first : Address} {text : List Byte} (targets : List Address) {w : World σ}
    (hfirst : w.strings first = text) {target : Address}
    (h : w.strings target = text ∨ target ∈ targets) :
    (targets.foldl (fun w target => w.setString target (w.strings first)) w).strings
      target = text := by
  induction targets generalizing w with
  | nil => exact h.resolve_right List.not_mem_nil
  | cons next targets ih =>
    have hset : ∀ other, (w.setString next (w.strings first)).strings other =
        if other = next then text else w.strings other := by
      intro other
      rw [World.setString, hfirst]
      exact Function.update_apply ..
    refine ih ?_ ?_
    · rw [hset, hfirst, ite_self]
    · rw [hset]
      split
      · exact .inl rfl
      · rename_i hne
        exact h.imp id fun hmem => (List.mem_cons.mp hmem).resolve_left hne

/-- Appending the last entry of a vector to others, which may be the vector itself. -/
theorem foldl_pushVector {first : Address} {text : List Byte} (targets : List Address) {w : World σ}
    (hfirst : (w.vectors first).getLast? = some text) (target : Address) :
    (targets.foldl (fun w target => w.pushVector target ((w.vectors first).getLastD [])) w).vectors
      target =
      w.vectors target ++ List.replicate (targets.count target) text := by
  induction targets generalizing w with
  | nil => exact (List.append_nil _).symm
  | cons next targets ih =>
    have hlast : (w.vectors first).getLastD [] = text := by
      rw [List.getLastD_eq_getLast?, hfirst, Option.getD_some]
    have hpush : ∀ other, (w.pushVector next ((w.vectors first).getLastD [])).vectors other =
        if other = next then w.vectors other ++ [text] else w.vectors other := by
      intro other
      rw [World.pushVector, hlast]
      by_cases hother : other = next
      · rw [if_pos hother, hother]
        exact Function.update_self ..
      · rw [if_neg hother]
        exact Function.update_of_ne hother ..
    rw [List.foldl_cons, ih ?_, hpush]
    · by_cases hnext : target = next
      · rw [if_pos hnext, hnext, List.count_cons_self, List.replicate_succ, List.append_assoc]
        rfl
      · rw [if_neg hnext, List.count_cons_of_ne (Ne.symm hnext)]
    · rw [hpush]
      split
      · rw [List.getLast?_append, List.getLast?_singleton, Option.some_or]
      · exact hfirst

/-! ### What a message passes on -/

/-- A destination that is code elsewhere. -/
def IsWritten (destination : Message.Destination) : Prop :=
  destination ≠ .sink ∧ destination ≠ .string ∧ destination ≠ .vector

theorem deliver_written (library : Library σ ε) (context : Context)
    {received : Message.Destination × List Byte} (h : IsWritten received.1) :
    deliver library context received = library.write received.1 received.2 := by
  obtain ⟨destination, text⟩ := received
  cases destination with
  | sink => exact absurd rfl h.1
  | string => exact absurd rfl h.2.1
  | vector => exact absurd rfl h.2.2
  | _ => rfl

/-- The first request of the message is for its text, and what follows is for some other
destinations. -/
def StoresIn (env : Message.Environment) (data : Message.MessageData)
    (destination : Message.Destination) (Others : Message.Destination → Prop) : Prop :=
  ∃ others, Message.requests env data = Message.messageRequest data destination :: others ∧
    ∀ r ∈ others, Others r.1

theorem storesIn_string {env : Message.Environment} {data : Message.MessageData}
    (hmethod : data.sendMethod = .writeToStringAndLog) (hpointer : data.pointer = true) :
    StoresIn env data .string IsWritten := by
  have hlog : ∀ r ∈ Message.sendToLog env data, IsWritten r.1 := by
    rw [Message.sendToLog]
    split <;> simp [IsWritten]
  have hmail : ∀ r ∈ if env.sendsEmail then
      [(Message.Destination.email, 0, data.numCharsToLog)] else [],
        IsWritten r.1 := by
    split <;> simp [IsWritten]
  have hsinks : ∀ r ∈ if env.hasSinks then [Message.messageRequest data .registeredSinks] else [],
      IsWritten r.1 := by
    split <;> simp [IsWritten, Message.messageRequest]
  refine ⟨_, ?_, List.forall_mem_append.mpr ⟨hlog, List.forall_mem_append.mpr ⟨hmail, hsinks⟩⟩⟩
  simp [Message.requests, Message.callSendMethod, Message.sendToRegisteredSinks, hmethod, hpointer]

theorem storesIn_vector {env : Message.Environment} {data : Message.MessageData}
    (hmethod : data.sendMethod = .saveOrSendToLog) (hpointer : data.pointer = true) :
    StoresIn env data .vector fun _ => False := by
  refine ⟨[], ?_, List.forall_mem_nil _⟩
  simp [Message.requests, Message.callSendMethod, Message.sendToRegisteredSinks, hmethod, hpointer]

theorem fst_receive {stream : Message.LogStream} {requests : List Message.Request}
    {received : List (Message.Destination × List Byte)}
    (h : requests.mapM (Message.receive stream) = some received) :
    received.map Prod.fst = requests.map Prod.fst := by
  induction requests generalizing received with
  | nil =>
    cases h
    rfl
  | cons r requests ih =>
    rw [List.mapM_cons] at h
    obtain ⟨first, hfirst, h⟩ := Option.bind_eq_some_iff.mp h
    obtain ⟨rest, hrest, h⟩ := Option.bind_eq_some_iff.mp h
    cases h
    obtain ⟨text, -, rfl⟩ := Option.map_eq_some_iff.mp hfirst
    rw [List.map_cons, List.map_cons, ih hrest]

/-- Text that is within the array does not end in front of its beginning. -/
theorem lt_of_receive {stream : Message.LogStream} {data : Message.MessageData}
    {destination : Message.Destination} {received : Message.Destination × List Byte}
    (hle : data.numPrefixChars ≤ data.numCharsToLog)
    (hsize : data.numCharsToLog ≤ Message.streamCapacity + 1)
    (h : Message.receive stream (Message.messageRequest data destination) = some received) :
    data.numPrefixChars + 1 ≤ data.numCharsToLog := by
  by_contra hlt
  have hmodulus : Message.bufferSize < Style.sizeModulus - 1 := by decide
  have hbuffer := Message.bufferSize_eq
  have hwrapped : Style.sizeSub (Style.sizeSub data.numCharsToLog data.numPrefixChars) 1 =
      Style.sizeModulus - 1 := by
    rw [Style.sizeSub_of_le hle (by omega), Nat.sub_eq_zero_of_le (by omega)]
    rfl
  obtain ⟨text, hrange, -⟩ := Option.map_eq_some_iff.mp h
  rw [Message.messageRequest] at hrange
  dsimp only at hrange
  rw [hwrapped, Message.LogStream.range, if_neg (by omega)] at hrange
  cases hrange

/-- The text that is passed on first is what has been streamed, without a newline at its end. -/
theorem flush_first {env : Message.Environment} {data data' : Message.MessageData}
    {received : List (Message.Destination × List Byte)} {destination : Message.Destination}
    {Others : Message.Destination → Prop}
    (hsends : Message.Sends env data) (hfields : data.numPrefixChars ≤ data.stream.pcount)
    (hreceives : destination.ReceivesText)
    (hstores : ∀ data₁ : Message.MessageData, data₁.sendMethod = data.sendMethod →
      data₁.pointer = data.pointer → StoresIn env data₁ destination Others)
    (h : Message.flush env data = some (data', received)) :
    ∃ others, received =
      (destination, Message.withoutNewline (data.stream.text.drop data.numPrefixChars)) :: others ∧
      ∀ r ∈ others, Others r.1 := by
  obtain ⟨t, stream, hcount, htext, -, -, hflush⟩ := Message.flush_eq hsends
  have hle := Message.length_terminated_le data.stream
  have hpcount := data.stream.pcount_le
  have hlonger := Message.le_length_terminated data.stream.text
  rw [data.stream.length_text] at hlonger
  dsimp only at hflush
  rw [hflush, Option.map_eq_some_iff] at h
  obtain ⟨received', hreceived, heq⟩ := h
  obtain rfl : received' = received := congrArg Prod.snd heq
  set data₁ : Message.MessageData := { data with
    stream := t.stream
    numCharsToLog := t.numCharsToLog
    numCharsToSyslog := Style.sizeSub data.stream.pcount data.numPrefixChars } with hdata₁
  obtain ⟨requests, hrequests, hrest⟩ := hstores data₁ rfl rfl
  have hmem : Message.messageRequest data₁ destination ∈ Message.requests env data₁ := by
    rw [hrequests]
    exact List.mem_cons_self
  rw [hrequests, List.mapM_cons] at hreceived
  obtain ⟨first, hfirst, hreceived⟩ := Option.bind_eq_some_iff.mp hreceived
  obtain ⟨others, hothers, hreceived⟩ := Option.bind_eq_some_iff.mp hreceived
  cases hreceived
  have hlt : data.numPrefixChars + 1 ≤ t.numCharsToLog :=
    @lt_of_receive t.stream data₁ destination first (by dsimp only [data₁]; omega)
      (by dsimp only [data₁]; omega) hfirst
  have hmodulus : Message.streamCapacity + 1 < Style.sizeModulus := by decide
  obtain ⟨received, hserved, hall⟩ := Message.receive_of_mem env data₁ (hcount ▸ htext) hle hcount
    (by rw [data.stream.length_text]; exact Style.sizeSub_of_le hfields (by omega))
    (by rw [data.stream.length_text]; exact hfields) (hcount ▸ hlt) _ hmem
  obtain rfl : first = received := Option.some.inj (hfirst.symm.trans hserved)
  obtain ⟨text, -, rfl⟩ := Option.map_eq_some_iff.mp hfirst
  refine ⟨others, ?_, fun r hr => ?_⟩
  · rw [show text = _ from hall hreceives]
    rfl
  · have hmap := List.mem_map_of_mem (f := Prod.fst) hr
    rw [fst_receive hothers] at hmap
    obtain ⟨r', hr', hfst⟩ := List.mem_map.mp hmap
    rw [← hfst]
    exact hrest r' hr'

/-! ### Sending -/

/-- The code elsewhere leaves the strings and vectors as they are. -/
structure Library.LeavesTargets (library : Library σ ε) : Prop where
  write : ∀ destination text strings vectors, Preserves
    (fun s => s.1.strings = strings ∧ s.1.vectors = vectors) (library.write destination text)

variable {library : Library σ ε} {context : Context} {numPrefixChars vectorSize : ℕ}
  {s s' : World σ × Message.LogStream}

/-- A message that is released without an exception has been passed on. -/
theorem release_returned (h : release library context numPrefixChars s = .returned () s') :
    ∃ data received s₁, Message.flush (library.environment s.1)
      (messageData context numPrefixChars s.2) =
      some (data, received) ∧ Block.forEach (deliver library context) received s = .returned () s₁ ∧
      s'.1.strings = s₁.1.strings ∧ s'.1.vectors = s₁.1.vectors := by
  rw [release] at h
  split at h
  · cases h
  · rename_i data received hflush
    obtain ⟨⟨⟩, s₁, hdeliver, h⟩ := bind_eq_returned.mp h
    refine ⟨data, received, s₁, hflush, hdeliver, ?_⟩
    obtain ⟨⟨⟩, s₂, hmodify, h⟩ := bind_eq_returned.mp h
    have hs₂ : s₂.1.strings = s₁.1.strings ∧ s₂.1.vectors = s₁.1.vectors := by
      refine Preserves.returned (preserves_modify fun s hs => ?_)
        (I := fun s => s.1.strings = s₁.1.strings ∧ s.1.vectors = s₁.1.vectors) ⟨rfl, rfl⟩ hmodify
      dsimp only
      split <;> exact hs
    obtain ⟨s₃, s₄, hget, h⟩ := bind_eq_returned.mp h
    obtain ⟨rfl, rfl⟩ : s₂ = s₃ ∧ s₂ = s₄ := by
      cases hget
      exact ⟨rfl, rfl⟩
    split at h
    · obtain ⟨⟨⟩, s₅, -, h⟩ := bind_eq_returned.mp h
      cases h
    · cases h
      exact hs₂

/-- What a message passes on to a destination leaves the targets as they are. -/
def Leaves (library : Library σ ε) (context : Context) (destination : Message.Destination) : Prop :=
  ∀ text strings vectors, Preserves (fun s => s.1.strings = strings ∧ s.1.vectors = vectors)
    (deliver library context (destination, text))

theorem Library.LeavesTargets.leaves (h : library.LeavesTargets) (context : Context)
    {destination : Message.Destination} (hwritten : IsWritten destination) :
    Leaves library context destination := by
  intro text strings vectors
  have hdeliver := @deliver_written _ _ library context (destination, text) hwritten
  rw [hdeliver]
  exact h.write destination text strings vectors

/-- The message is sent at the severity it has. -/
def IsEnabled (library : Library σ ε) (context : Context) (w : World σ) : Prop :=
  (library.environment w).minloglevel.toInt ≤ context.severity.toInt

instance (library : Library σ ε) (context : Context) (w : World σ) :
    Decidable (IsEnabled library context w) :=
  inferInstanceAs (Decidable (_ ≤ _))

theorem strings_copyVectors (context : Context) (vectorSize : ℕ) (w : World σ) :
    (copyVectors context vectorSize w).strings = w.strings := by
  rw [copyVectors.eq_def]
  split
  · rfl
  · rename_i first others _
    split
    · have hfold : ∀ (targets : List Address) (w : World σ), (targets.foldl (fun w target =>
          w.pushVector target ((w.vectors first).getLastD [])) w).strings = w.strings := by
        intro targets
        induction targets with
        | nil => exact fun w => rfl
        | cons target targets ih => exact fun w => ih _
      exact hfold others w
    · rfl

theorem vectors_copyStrings (context : Context) (w : World σ) :
    (copyStrings context w).vectors = w.vectors := by
  rw [copyStrings.eq_def]
  split
  · rfl
  · rename_i first others _
    have hfold : ∀ (targets : List Address) (w : World σ),
        (targets.foldl (fun w target => w.setString target (w.strings first)) w).vectors =
          w.vectors := by
      intro targets
      induction targets with
      | nil => exact fun w => rfl
      | cons target targets ih => exact fun w => ih _
    exact hfold others w

/-- The text of a message is stored in the first target, and nothing else is stored. -/
theorem release_first {destination : Message.Destination} {Others : Message.Destination → Prop}
    (hleaves : ∀ other, Others other → Leaves library context other)
    (henabled : IsEnabled library context s.1) (hfields : numPrefixChars ≤ s.2.pcount)
    (hreceives : destination.ReceivesText)
    (hstores : ∀ (env : Message.Environment) (data : Message.MessageData),
      data.sendMethod = sendMethod context → data.pointer = hasTarget context →
        StoresIn env data destination Others)
    (h : release library context numPrefixChars s = .returned () s') :
    ∃ s₁, deliver library context
        (destination, Message.withoutNewline (s.2.text.drop numPrefixChars)) s = .returned () s₁ ∧
      s'.1.strings = s₁.1.strings ∧ s'.1.vectors = s₁.1.vectors := by
  obtain ⟨data, received, s₂, hflush, hdeliver, hstrings, hvectors⟩ := release_returned h
  have hsends : Message.Sends (library.environment s.1)
      (messageData context numPrefixChars s.2) := ⟨rfl, henabled⟩
  obtain ⟨others, rfl, hothers⟩ := flush_first hsends hfields hreceives (hstores _) hflush
  obtain ⟨⟨⟩, s₁, hfirst, hrest⟩ := bind_eq_returned.mp hdeliver
  have hkeeps : Preserves (fun s => s.1.strings = s₁.1.strings ∧ s.1.vectors = s₁.1.vectors)
      (Block.forEach (deliver library context) others) :=
    .forEach fun r hr => hleaves r.1 (hothers r hr) r.2 _ _
  obtain ⟨hstrings₂, hvectors₂⟩ := hkeeps.returned ⟨rfl, rfl⟩ hrest
  exact ⟨s₁, hfirst, hstrings.trans hstrings₂, hvectors.trans hvectors₂⟩

/-- When a message that is to be stored in strings has been sent, each of them holds its text, in
whatever order and how often they are given. -/
theorem send_strings (hlibrary : library.LeavesTargets)
    (hdestination : context.destination = .kStringAndLog) (henabled : IsEnabled library context s.1)
    (hfields : numPrefixChars ≤ s.2.pcount)
    (h : send library context numPrefixChars vectorSize s = .returned () s') :
    ∀ target ∈ context.strings,
      s'.1.strings target = Message.withoutNewline (s.2.text.drop numPrefixChars) := by
  obtain ⟨⟨⟩, s₁, hrelease, h⟩ := bind_eq_returned.mp h
  cases htargets : context.strings with
  | nil => exact List.forall_mem_nil _
  | cons first others =>
    have hreceives : Message.Destination.string.ReceivesText := trivial
    obtain ⟨s₂, hfirst, hstrings, -⟩ := release_first (fun _ => hlibrary.leaves context) henabled
      hfields hreceives
      (fun env data hmethod hpointer => storesIn_string (by rw [hmethod, sendMethod, hdestination])
        (by rw [hpointer, hasTarget, hdestination]; simp [htargets])) hrelease
    rw [deliver, htargets] at hfirst
    cases hfirst
    have htext : s₁.1.strings first = Message.withoutNewline (s.2.text.drop numPrefixChars) := by
      rw [hstrings]
      exact Function.update_self ..
    have hs' : s'.1.strings = (copyStrings context s₁.1).strings := by
      cases h
      exact strings_copyVectors context vectorSize _
    intro target htarget
    rw [hs', copyStrings, htargets]
    refine foldl_setString others htext ?_
    cases htarget with
    | head => exact .inl htext
    | tail _ hmem => exact .inr hmem

theorem quietLibrary_leavesTargets : quietLibrary.LeavesTargets :=
  ⟨fun _ _ _ _ => preserves_pure ()⟩

/-- A message with a prefix of one byte. -/
def shortStream : Message.LogStream :=
  (Message.LogStream.init quietLibrary.messageText).append (bytes "]ab")

/-- Two strings, one of them twice. -/
def twoStrings : Context :=
  { Context.init 0 false 0 with destination := .kStringAndLog, strings := [4, 7, 4] }

theorem send_strings_two : ∃ s', send quietLibrary twoStrings 1 0 (formattingWorld, shortStream) =
    .returned () s' ∧ s'.1.strings 7 = bytes "ab" := by
  obtain ⟨s', hs'⟩ : ∃ s', send quietLibrary twoStrings 1 0 (formattingWorld, shortStream) =
      .returned () s' := ⟨_, rfl⟩
  exact ⟨s', hs', send_strings quietLibrary_leavesTargets rfl (by decide)
    (by decide) hs' 7 (by decide)⟩

/-- When a message that is to be appended to vectors has been sent, each vector has got its text as
often as it is given, unless the first one has lost an entry while the message was composed. -/
theorem send_vectors {first : Address} {others : List Address}
    (hdestination : context.destination = .kVectorOrLog)
    (htargets : context.vectors = first :: others) (henabled : IsEnabled library context s.1)
    (hfields : numPrefixChars ≤ s.2.pcount) (hsize : (s.1.vectors first).length + 1 ≠ vectorSize)
    (h : send library context numPrefixChars vectorSize s = .returned () s') (target : Address) :
    s'.1.vectors target = s.1.vectors target ++ List.replicate (context.vectors.count target)
      (Message.withoutNewline (s.2.text.drop numPrefixChars)) := by
  obtain ⟨⟨⟩, s₁, hrelease, h⟩ := bind_eq_returned.mp h
  have hreceives : Message.Destination.vector.ReceivesText := trivial
  obtain ⟨s₂, hfirst, -, hvectors⟩ := release_first (fun _ => False.elim) henabled hfields hreceives
    (fun env data hmethod hpointer => storesIn_vector (by rw [hmethod, sendMethod, hdestination])
      (by rw [hpointer, hasTarget, hdestination]; simp [htargets])) hrelease
  rw [deliver, htargets] at hfirst
  cases hfirst
  set text := Message.withoutNewline (s.2.text.drop numPrefixChars)
  set w := copyStrings context s₁.1
  have hstored : ∀ target, w.vectors target =
      s.1.vectors target ++ List.replicate (if target = first then 1 else 0) text := by
    intro target
    rw [vectors_copyStrings, hvectors]
    by_cases htarget : target = first
    · rw [if_pos htarget, htarget]
      exact Function.update_self ..
    · rw [if_neg htarget, List.replicate_zero, List.append_nil]
      exact Function.update_of_ne htarget ..
  have hlast : w.vectors first = s.1.vectors first ++ [text] := by
    rw [hstored, if_pos rfl]
    rfl
  have hcopied : s'.1.vectors = (copyVectors context vectorSize w).vectors := by
    cases h
    rfl
  rw [hcopied, copyVectors, htargets]
  dsimp only
  rw [if_pos (by rw [hlast, List.length_append]; exact hsize),
    foldl_pushVector others (by rw [hlast, List.getLast?_concat]) target, hstored,
    List.append_assoc,
    List.replicate_append_replicate, List.count_cons, Nat.add_comm]
  congr 3
  by_cases htarget : target = first
  · rw [if_pos htarget, htarget, if_pos (beq_self_eq_true first)]
  · rw [if_neg htarget, if_neg (by rw [beq_iff_eq]; exact Ne.symm htarget)]

/-- Two vectors, one of them twice. -/
def twoVectors : Context :=
  { Context.init 0 false 0 with destination := .kVectorOrLog, vectors := [4, 7, 4] }

theorem send_vectors_two : ∃ s', send quietLibrary twoVectors 1 0 (formattingWorld, shortStream) =
    .returned () s' ∧ s'.1.vectors 4 = [bytes "ab", bytes "ab"] := by
  obtain ⟨s', hs'⟩ : ∃ s', send quietLibrary twoVectors 1 0 (formattingWorld, shortStream) =
      .returned () s' := ⟨_, rfl⟩
  exact ⟨s', hs', send_vectors rfl rfl (by decide) (by decide) (by decide) hs' 4⟩

end Experimental

end NgLog
