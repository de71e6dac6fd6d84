import NgLog.Experimental.Dispatch

/-!
# What a dispatch leaves behind

The code that runs in a dispatch can log itself, to any depth. Whichever way it is left, the thread
formats the same context as before. So each message is formatted with its own occurrences, also
behind an argument whose formatter has logged. And whatever the code does to `errno`, a dispatch
leaves the value that its message reports: the one that its attributes have left in its context.

Messages with `AsyncDelivery` are not dispatched but copied for the logging thread; code that logs
them is left out.

## Main definitions

* `UserCode` — code that accesses the formatted context by logging and formatting only

## Main results

* `formatting_restored` — the formatted context is restored
* `compose_own_occurrences` — the placeholder of the occurrences shows those of its own message
* `errno_reported` — what `errno` is after a dispatch
-/

namespace NgLog

namespace Experimental

open Message (Severity LogStream)
open Unwinding

variable {σ ε α τ : Type}

/-! ### What code outside can do -/

/-- Code that has access to a local variable and to all of the state but the formatted context. It
can log messages without `AsyncDelivery`, format with the placeholder, and catch exceptions. -/
inductive UserCode : {τ α : Type} → Block (World σ × τ) ε α → Prop
  | effect {τ α : Type} (x : Block (Visible σ × τ) ε α) :
    UserCode (x.zoom (fun s => (s.1.toVisible, s.2)) fun v s =>
      ({ s.1 with toVisible := v.1 }, v.2))
  | bind {τ α β : Type} {x : Block (World σ × τ) ε α} {f : α → Block (World σ × τ) ε β}
      (hx : UserCode x)
    (hf : ∀ a, UserCode (f a)) : UserCode (x.bind f)
  | catching {τ α : Type} {x : Block (World σ × τ) ε α} {handler : ε → Block (World σ × τ) ε α}
    (hx : UserCode x) (hhandler : ∀ e, UserCode (handler e)) : UserCode (x.catching handler)
  | formatOccurrence : UserCode (formatOccurrence : MessageHook σ ε)
  | dispatch {τ : Type} (call : Call σ ε)
    (hconfigure : ∀ hooks ∈ call.attributes, ∀ x ∈ hooks.configure, UserCode x)
    (hadmits : ∀ hooks ∈ call.attributes, ∀ x ∈ hooks.admits, UserCode x)
    (hthrottle : ∀ hooks ∈ call.attributes, ∀ x ∈ hooks.throttle, UserCode x)
    (hfront : ∀ hooks ∈ call.attributes, ∀ x ∈ hooks.prefixHook, UserCode x)
    (hback : ∀ hooks ∈ call.attributes, ∀ x ∈ hooks.suffixHook, UserCode x)
    (hfields : ∀ hooks ∈ call.attributes, ∀ x ∈ hooks.fields, UserCode x)
    (hinit : ∀ context, UserCode (call.library.init context))
    (hbacktrace : ∀ context, UserCode (call.library.backtrace context))
    (hsend : ∀ target text, UserCode (call.library.send target text))
    (hrecord : ∀ target context text, UserCode (call.library.sendRecord target context text))
    (hwrite : ∀ destination text, UserCode (call.library.write destination text))
    (hfail : UserCode call.library.fail) (hcomposer : UserCode call.composer) :
    UserCode ((dispatch call).zoom Prod.fst fun w (s : World σ × τ) => (w, s.2))
  | isAdmitted {τ : Type} (attributes : List (Hooks σ ε)) (configuration : CallerConfiguration)
      (location : ℕ)
    (hconfigure : ∀ hooks ∈ attributes, ∀ x ∈ hooks.configure, UserCode x)
    (hadmits : ∀ hooks ∈ attributes, ∀ x ∈ hooks.admits, UserCode x) :
    UserCode ((isAdmitted attributes configuration location).zoom Prod.fst fun w
      (s : World σ × τ) => (w, s.2))

/-! ### The formatted context is restored -/

/-- The thread formats a context. -/
def Formats (context : Option Context) (s : World σ × τ) : Prop := s.1.formatting = context

/-- The code elsewhere leaves the formatted context as it is. -/
structure Library.Restores (library : Library σ ε) (old : Option Context) : Prop where
  init : ∀ context, Preserves (Formats old) (library.init context)
  backtrace : ∀ context, Preserves (Formats old) (library.backtrace context)
  send : ∀ target text, Preserves (Formats old) (library.send target text)
  sendRecord : ∀ target context text,
  Preserves (Formats old) (library.sendRecord target context text)
  write : ∀ destination text, Preserves (Formats old) (library.write destination text)
  fail : Preserves (Formats old) library.fail

/-- The hooks of an attribute leave the formatted context as it is. -/
structure Hooks.Restores (hooks : Hooks σ ε) (old : Option Context) : Prop where
  configure : ∀ x ∈ hooks.configure, Preserves (Formats old) x
  admits : ∀ x ∈ hooks.admits, Preserves (Formats old) x
  throttle : ∀ x ∈ hooks.throttle, Preserves (Formats old) x
  prefixHook : ∀ x ∈ hooks.prefixHook, Preserves (Formats old) x
  suffixHook : ∀ x ∈ hooks.suffixHook, Preserves (Formats old) x
  fields : ∀ x ∈ hooks.fields, Preserves (Formats old) x

/-- A block that works on the state of the thread, where there is a local variable. -/
theorem restores_onFirst {old : Option Context} {x : Block (World σ) ε α}
    (h : Preserves (fun w => w.formatting = old) x) :
    Preserves (Formats old) (x.zoom Prod.fst fun w (s : World σ × τ) => (w, s.2)) := by
  refine h.zoom (fun s hs => ?_) fun w s _ hw => ?_
  · exact hs
  · exact hw

section Restores

variable {library : Library σ ε} {attributes : List (Hooks σ ε)} {old : Option Context}
  {configuration : CallerConfiguration} {context : Context} {composer output : MessageHook σ ε}

theorem deliver_restores (h : library.Restores old) (context : Context)
    (received : Message.Destination × List Byte) :
    Preserves (Formats old) (deliver library context received) := by
  obtain ⟨destination, text⟩ := received
  cases destination with
  | sink =>
    exact (Preserves.forEach fun sink _ => h.send sink text).bind fun _ =>
      .forEach fun sink _ => h.sendRecord sink context text
  | string =>
    refine preserves_modify fun s hs => ?_
    cases context.strings <;> exact hs
  | vector =>
    refine preserves_modify fun s hs => ?_
    cases context.vectors <;> exact hs
  | log | syslog | email | registeredSinks | fatalMessage => exact h.write _ text

theorem release_restores (h : library.Restores old) (context : Context) (numPrefixChars : ℕ) :
    Preserves (Formats old) (release library context numPrefixChars) := by
  intro s s' hs hleft
  rw [release] at hleft
  split at hleft
  · cases hleft
  · rename_i data received _
    refine (Preserves.bind (I := Formats old)
      (.forEach fun r _ => deliver_restores h context r) fun _ =>
      (preserves_modify fun s hs => ?_).bind fun _ => preserves_get.bind fun s => ?_) s s' hs hleft
    · rw [Formats]
      split <;> exact hs
    · split
      · exact h.fail.bind fun _ => preserves_abort
      · exact preserves_pure ()

theorem formatting_foldl {f : World σ → Address → World σ} (targets : List Address)
    (hf : ∀ w target, (f w target).formatting = w.formatting) (w : World σ) :
    (targets.foldl f w).formatting = w.formatting := by
  induction targets generalizing w with
  | nil => rfl
  | cons target targets ih => exact (ih _).trans (hf w target)

theorem formatting_copyStrings (context : Context) (w : World σ) :
    (copyStrings context w).formatting = w.formatting := by
  rw [copyStrings.eq_def]
  split
  · rfl
  · refine formatting_foldl _ (fun w target => ?_) w
    rfl

theorem formatting_copyVectors (context : Context) (vectorSize : ℕ) (w : World σ) :
    (copyVectors context vectorSize w).formatting = w.formatting := by
  rw [copyVectors.eq_def]
  split
  · rfl
  · split
    · refine formatting_foldl _ (fun w target => ?_) w
      rfl
    · rfl

theorem send_restores (h : library.Restores old) (context : Context)
    (numPrefixChars vectorSize : ℕ) :
    Preserves (Formats old) (send library context numPrefixChars vectorSize) :=
  (release_restores h context numPrefixChars).bind fun _ => preserves_modify fun s hs =>
    (formatting_copyVectors context vectorSize _).trans
      ((formatting_copyStrings context s.1).trans hs)

theorem composeText_restores (hattributes : ∀ hooks ∈ attributes, hooks.Restores old)
    (houtput : Preserves (Formats old) output) :
    Preserves (Formats old) (composeText attributes context composer output) := by
  refine (Preserves.catching ?_ fun e => houtput.bind fun _ => preserves_throw e).bind
    fun _ => houtput
  refine (preserves_runHooks fun hooks hmem => (hattributes hooks hmem).prefixHook).bind fun _ => ?_
  refine (preserves_within (fun _ _ => rfl) (some context) old composer).bind fun _ => ?_
  exact preserves_runHooks fun hooks hmem => (hattributes hooks hmem).suffixHook

theorem composeOutput_restores (h : library.Restores old)
    (hattributes : ∀ hooks ∈ attributes, hooks.Restores old) :
    Preserves (Formats old) (composeOutput library attributes context composer) :=
  (h.init context).bind fun _ => preserves_get.bind fun _ => (h.backtrace context).bind fun _ =>
    preserves_get.bind fun _ => composeText_restores hattributes (send_restores h context _ _)

theorem compose_restores (h : library.Restores old)
    (hattributes : ∀ hooks ∈ attributes, hooks.Restores old) :
    Preserves (Formats old) (compose library attributes composer) := by
  refine Preserves.bind (preserves_get.bind fun s => ?_) fun _ =>
    (preserves_modify fun s hs => ?_).bind fun _ => preserves_get.bind fun s => ?_
  · split
    · exact (preserves_runHooks fun hooks hmem => (hattributes hooks hmem).fields).zoom
        (fun s hs => hs) fun t s _ ht => ht
    · exact preserves_pure ()
  · exact hs
  · exact restores_onFirst (.locally (composeOutput_restores h hattributes))

theorem dispatch_restores {call : Call σ ε} (h : call.library.Restores old)
    (hattributes : ∀ hooks ∈ call.attributes, hooks.Restores old) :
    Preserves (fun w => w.formatting = old) (dispatch call) := by
  intro w w' hw hleft
  refine Preserves.locally (I := fun w => w.formatting = old)
    (Preserves.cleanup (I := Formats old) ?_ fun s hs => ?_) w w' hw hleft
  · have hadmits : Preserves (Formats old)
        (admits call.library call.attributes call.configuration) :=
      preserves_admits (fun hooks hmem => (hattributes hooks hmem).configure) (fun _ hs => hs)
        (fun hooks hmem => (hattributes hooks hmem).admits) fun hooks hmem =>
          (hattributes hooks hmem).throttle
    refine hadmits.bind fun admitted => ?_
    split
    · exact compose_restores h hattributes
    · exact preserves_pure ()
  · exact hs

theorem isAdmitted_restores {location : ℕ}
    (hconfigure : ∀ hooks ∈ attributes, ∀ x ∈ hooks.configure, Preserves (Formats old) x)
    (hadmits : ∀ hooks ∈ attributes, ∀ x ∈ hooks.admits, Preserves (Formats old) x) :
    Preserves (fun w => w.formatting = old) (isAdmitted attributes configuration location) := by
  intro w w' hw h
  have hasked : Preserves (Formats old)
      ((runHooks attributes Hooks.configure).bind fun _ => passHooks attributes Hooks.admits) :=
    (preserves_runHooks hconfigure).bind fun _ => preserves_passHooks hadmits
  refine Preserves.bind (I := fun w : World σ => w.formatting = old) (.locally hasked)
    (fun admitted => ?_)
    w w' hw h
  exact (preserves_modify fun w' hw' => by exact hw').bind fun _ => preserves_pure _

end Restores

theorem UserCode.restores {x : Block (World σ × τ) ε α} (h : UserCode x) (old : Option Context) :
    Preserves (Formats old) x := by
  induction h with
  | effect x =>
    refine preserves_zoom (fun _ _ hs => ?_) x
    exact hs
  | bind _ _ ihx ihf => exact ihx.bind ihf
  | catching _ _ ihx ihhandler => exact ihx.catching ihhandler
  | formatOccurrence => exact preserves_modify fun s hs => hs
  | dispatch call _ _ _ _ _ _ _ _ _ _ _ _ _ hconfigure hadmits hthrottle hfront hback hfields
      hinit hbacktrace
      hsend hrecord hwrite hfail _ =>
    refine restores_onFirst (dispatch_restores ?_ fun hooks hmem => ?_)
    · exact ⟨hinit, hbacktrace, hsend, hrecord, hwrite, hfail⟩
    · exact ⟨hconfigure hooks hmem, hadmits hooks hmem, hthrottle hooks hmem, hfront hooks hmem,
        hback hooks hmem, hfields hooks hmem⟩
  | isAdmitted attributes configuration location _ _ hconfigure hadmits =>
    exact restores_onFirst (isAdmitted_restores hconfigure hadmits)

/-- Whatever code does, and to whatever depth it logs in hooks, formatters and sinks: when it is
left, by returning or by an exception, the thread formats the same context as before. -/
theorem formatting_restored {x : Block (World σ × τ) ε α} (h : UserCode x) {s s' : World σ × τ}
    (hleft : (x s).left = some s') : s'.1.formatting = s.1.formatting :=
  h.restores _ s s' rfl hleft

/-- A library in which nothing is done. -/
def quietLibrary : Library Unit Unit where
  environment := fun _ => ⟨0, false, false, false⟩
  exitsOnDfatal := fun _ => false
  messageText := ⟨List.replicate Message.bufferSize 0, List.length_replicate⟩
  init := fun _ => .pure ()
  backtrace := fun _ => .pure ()
  send := fun _ _ => .pure ()
  sendRecord := fun _ _ _ => .pure ()
  write := fun _ _ => .pure ()
  fail := .pure ()

theorem userCode_pure (a : α) : UserCode (Block.pure a : Block (World σ × τ) ε α) :=
  .effect (.pure a)

/-- A call whose only attribute rejects the message with a hook. -/
def rejecting (hook : ContextHook Unit Unit Bool) : Call Unit Unit where
  library := quietLibrary
  attributes := [⟨none, some hook, none, none, none, none⟩]
  configuration := ⟨0, false⟩
  location := 0
  composer := format [.occurrence]

theorem userCode_rejecting {hook : ContextHook Unit Unit Bool} (h : UserCode hook) :
    UserCode ((dispatch (rejecting hook)).zoom Prod.fst fun w (s : World Unit × τ) =>
      (w, s.2)) := by
  refine .dispatch _ ?_ ?_ ?_ ?_ ?_ ?_ (fun _ => userCode_pure ()) (fun _ => userCode_pure ())
    (fun _ _ => userCode_pure ()) (fun _ _ _ => userCode_pure ()) (fun _ _ => userCode_pure ())
    (userCode_pure ()) ?_
  · rintro hooks (_ | ⟨_, ⟨⟩⟩) x ⟨⟩
  · rintro hooks (_ | ⟨_, ⟨⟩⟩) x ⟨⟩
    exact h
  · rintro hooks (_ | ⟨_, ⟨⟩⟩) x ⟨⟩
  · rintro hooks (_ | ⟨_, ⟨⟩⟩) x ⟨⟩
  · rintro hooks (_ | ⟨_, ⟨⟩⟩) x ⟨⟩
  · rintro hooks (_ | ⟨_, ⟨⟩⟩) x ⟨⟩
  · exact UserCode.formatOccurrence.bind fun _ => userCode_pure ()

/-- A hook that logs a message, which is rejected, and then rejects its own. -/
def loggingHook : ContextHook Unit Unit Bool :=
  ((dispatch (rejecting (.pure false))).zoom Prod.fst fun w s => (w, s.2)).bind fun _ => .pure false

theorem userCode_loggingHook : UserCode loggingHook :=
  (userCode_rejecting (userCode_pure false)).bind fun _ => userCode_pure false

/-- The state of a thread that formats a context. -/
def formattingWorld : World Unit :=
  ⟨⟨2, fun _ => [], fun _ => [], ()⟩, some (Context.init 3 false 0)⟩

theorem formatting_restored_nested : ∃ s',
    ((dispatch (rejecting loggingHook)).zoom Prod.fst (fun w (s : World Unit × Unit) => (w, s.2))
      (formattingWorld, ())).left = some s' ∧ s'.1.formatting = some (Context.init 3 false 0) := by
  obtain ⟨s', hs'⟩ : ∃ s', ((dispatch (rejecting loggingHook)).zoom Prod.fst
      (fun w (s : World Unit × Unit) => (w, s.2)) (formattingWorld, ())).left = some s' := ⟨_, rfl⟩
  exact ⟨s', hs', formatting_restored (userCode_rejecting userCode_loggingHook) hs'⟩

/-! ### Own occurrences -/

/-- The placeholder of the occurrences as text. -/
def Piece.fill (occurrences : List Byte) : Piece σ ε → Piece σ ε
  | .occurrence => .literal occurrences
  | piece => piece

theorem restores_piece {pieces : List (Piece σ ε)} (h : ∀ x, .argument x ∈ pieces → UserCode x)
    (old : Option Context) {piece : Piece σ ε} (hpiece : piece ∈ pieces) :
    Preserves (Formats old) piece.format := by
  cases piece with
  | literal text => exact preserves_modify fun s hs => hs
  | occurrence => exact UserCode.formatOccurrence.restores old
  | argument x => exact (h x hpiece).restores old

/-- Where a context is formatted, the placeholder stands for its occurrences. -/
theorem withFormatting_fill {pieces : List (Piece σ ε)} (h : ∀ x, .argument x ∈ pieces → UserCode x)
    (context : Context) :
    withFormatting context (format pieces) =
      withFormatting context (format (pieces.map (Piece.fill (context.occurrences.getD [])))) := by
  have hformat : ∀ s : World σ × LogStream, Formats (some context) s →
      format pieces s = format (pieces.map (Piece.fill (context.occurrences.getD []))) s := by
    intro s hs
    rw [format, format, Block.forEach_map]
    refine forEach_eq (fun piece => restores_piece h (some context)) (fun piece _ s hs => ?_) hs
    cases piece with
    | literal text => rfl
    | argument x => rfl
    | occurrence =>
      change Exit.returned ()
        (s.1, s.2.append ((s.1.formatting.bind Context.occurrences).getD [])) = _
      rw [show s.1.formatting = some context from hs]
      rfl
  funext s
  rw [withFormatting, withFormatting, Block.within, Block.within, Block.cleanup, Block.cleanup,
    hformat ({ s.1 with formatting := some context }, s.2) rfl]

/-- Each message is composed as if the placeholders in its format string were the text of its own
occurrences, whatever its arguments log while they are formatted. -/
theorem compose_own_occurrences (library : Library σ ε) (attributes : List (Hooks σ ε))
    {pieces : List (Piece σ ε)} (h : ∀ x, .argument x ∈ pieces → UserCode x)
    (s : World σ × Context) :
    compose library attributes (format pieces) s =
      compose library attributes
        (format (pieces.map (Piece.fill (s.2.occurrences.getD [])))) s := by
  have houtput : ∀ context : Context, context.occurrences = s.2.occurrences →
      composeOutput library attributes context (format pieces) =
        composeOutput library attributes context
          (format (pieces.map (Piece.fill (s.2.occurrences.getD [])))) := by
    intro context hcontext
    simp only [composeOutput, composeText, withFormatting_fill h context, hcontext]
  refine bind_eq (I := fun s' : World σ × Context => s'.2.occurrences = s.2.occurrences)
    (preserves_get.bind fun s' => ?_) (fun _ s' hs' => ?_) rfl
  · split
    · refine preserves_zoom (fun _ _ hs => ?_) _
      exact hs
    · exact preserves_pure ()
  · simp only [Block.bind, Block.modify, Block.get, houtput s'.2 hs']

/-- An argument whose formatter logs, in front of the placeholder. -/
def loggingPieces : List (Piece Unit Unit) :=
  [.argument ((dispatch (rejecting loggingHook)).zoom Prod.fst fun w s => (w, s.2)), .occurrence]

theorem compose_own_occurrences_logging :
    compose quietLibrary [] (format loggingPieces)
        (formattingWorld, { Context.init 0 false 0 with occurrences := some (bytes "7") }) =
      compose quietLibrary [] (format (loggingPieces.map (Piece.fill (bytes "7"))))
        (formattingWorld, { Context.init 0 false 0 with occurrences := some (bytes "7") }) := by
  refine compose_own_occurrences quietLibrary [] ?_
    (formattingWorld, { Context.init 0 false 0 with occurrences := some (bytes "7") })
  rintro x (_ | ⟨_, _ | ⟨_, ⟨⟩⟩⟩)
  exact userCode_rejecting userCode_loggingHook

/-! ### The error number -/

variable {E : ℤ → Prop}

theorem preservedErrno_compose (library : Library σ ε) (attributes : List (Hooks σ ε))
    (composer : MessageHook σ ε) :
    Preserves (fun s => E s.2.preservedErrno) (compose library attributes composer) := by
  refine Preserves.bind (preserves_get.bind fun s => ?_) fun _ =>
    (preserves_modify fun s hs => ?_).bind fun _ => preserves_get.bind fun s => ?_
  · split
    · refine preserves_zoom (fun _ _ hs => ?_) _
      exact hs
    · exact preserves_pure ()
  · exact hs
  · refine preserves_zoom (fun _ _ hs => ?_) _
    exact hs

/-- Whichever way a dispatch is left, `errno` is the number that the attributes have left in the
context of its message, which starts with the caller's: nothing that hooks, formatters, sinks or the
log do to `errno` itself remains. -/
theorem errno_reported (call : Call σ ε) {w w' : World σ}
    (hleft : (dispatch call w).left = some w') :
    ∃ s, (admits call.library call.attributes call.configuration
        (w, Context.init call.location call.configuration.debug w.errno)).left = some s ∧
      w'.errno = s.2.preservedErrno := by
  rw [dispatch, Block.locally, Exit.left_map, Option.map_eq_some_iff] at hleft
  obtain ⟨s', hleft, rfl⟩ := hleft
  obtain ⟨s₁, hbody, rfl⟩ := left_cleanup hleft
  rcases left_bind hbody with ⟨admitted, s, hadmits, hrest⟩ | ⟨e, hadmits⟩
  · rw [hadmits]
    refine ⟨s, rfl, ?_⟩
    -- what follows the admission leaves the number in the context as it is
    have hkeeps : Preserves (fun s' => s'.2.preservedErrno = s.2.preservedErrno)
        (if admitted then compose call.library call.attributes call.composer else .pure ()) := by
      split
      · exact preservedErrno_compose (E := fun value => value = s.2.preservedErrno) _ _ _
      · exact preserves_pure ()
    exact hkeeps s s₁ rfl hrest
  · rw [hadmits]
    exact ⟨s₁, rfl, rfl⟩

/-- A hook that sets the error number of the message, changes `errno`, and rejects the message. -/
def changingHook : ContextHook Unit Unit Bool := fun s =>
  .returned false ({ s.1 with errno := 5 }, { s.2 with preservedErrno := 7 })

theorem errno_reported_changed : ∃ w',
    (dispatch (rejecting changingHook) formattingWorld).left = some w' ∧ w'.errno = 7 := by
  obtain ⟨w', hw'⟩ : ∃ w', (dispatch (rejecting changingHook) formattingWorld).left = some w' :=
    ⟨_, rfl⟩
  obtain ⟨s, hs, herrno⟩ := errno_reported (rejecting changingHook) hw'
  cases hs
  exact ⟨w', hw', herrno⟩

end Experimental

end NgLog
