import HaskellAgent.Lib.Machine
import HaskellAgent.TUI.Model.Types

/-!
# The mailbox between the agent and the screen

Producers enqueue events and the event pump takes them.  A text delta is merged into a group of
deltas of its kind at the end of the queue, and a keyed update replaces the one of its key that is
queued before it, unless a barrier stands between the two.
-/

open List Machine

namespace HaskellAgent

namespace TUI

/-! ### Events -/

/-- An event of the application; what the mailbox does not read of it is of type `π`. -/
inductive AppEvent (π : Type)
  | ui (event : UiEvent)
  | uiBatch (events : List UiEvent)
  | askPermission (payload : π)
  | askChoice (payload : π)
  | askFilterChoice (payload : π)
  | askAdjustableFilterChoice (payload : π)
  | askDynamicAdjustableFilterChoice (payload : π)
  | updateDynamicAdjustableFilterChoice (payload : π)
  | closeDynamicAdjustableFilterChoice (payload : π)
  | closeChoice (payload : π)
  | updateChoice (payload : π)
  | askText (payload : π)
  | askResume (payload : π)
  | suspend (payload : π)
  | setSlashCatalog (payload : π)
  | setSkillCommands (payload : π)
  | setModelIds (payload : π)
  | commandPaletteSelected (payload : π)
  | setTheme (payload : π)
  | setImagePreviews (payload : π)
  | refreshImagePreviews (payload : π)
  | commitImagePreviews (payload : π)
  | toolImage (payload : π)
  | dictationRecording (payload : π)
  | dictationPartial (payload : π)
  | dictationFinished (payload : π)
  | agentSnapshot (payload : π)
  | setWindowTitle (payload : π)
  | setMouseCapture (payload : π)
  | setFollowUpRouting (payload : π)
  | setPullRequestURLs (payload : π)
  | setPullRequestCI (payload : π)
  | syntaxHighlighterChanged
  | historyReset (payload : π)
  | historyChartPrepared (payload : π)
  | historyLoaded (payload : π)
  | historyCommitted (payload : π)
  | historyLiveStarted
  | conversationReflow
  | syncSubmittedImagePlacements
  | motionTick
  | recapPoll
  | stop

inductive PendingUiEvent
  | exactUi (event : UiEvent)
  | textDeltas (deltas : List Text)
  | planDeltas (deltas : List Text)
  | reasoningDeltas (deltas : List Text)

inductive PendingAppEvent (π : Type)
  | event (event : AppEvent π)
  | ui (event : PendingUiEvent)

variable {π : Type}

/-! ### Coalescing -/

inductive PendingEventCoalesceKey
  | activity
  | toolUpdate (callId : Text)
  | toolOutput (callId : Text)
  | agentSnapshot
  | windowTitle
  | dictationPartial
  | conversationReflow
  | imagePlacements
  | motionTick
  | recapPoll
  | syntaxHighlighter
  | pullRequestCI
  deriving DecidableEq, Repr

def pendingEventCoalesceKey : PendingAppEvent π → Option PendingEventCoalesceKey
  | .ui (.exactUi (.loop loopEvent)) =>
    match loopEvent with
    | .activityUpdated _ => some .activity
    | .toolUpdated call => some (.toolUpdate call.callId)
    | .toolArgumentsUpdated call => some (.toolUpdate call.callId)
    | .toolOutputUpdated callId _ => some (.toolOutput callId)
    | _ => none
  | .event appEvent =>
    match appEvent with
    | .agentSnapshot _ => some .agentSnapshot
    | .setWindowTitle _ => some .windowTitle
    | .dictationPartial _ => some .dictationPartial
    | .conversationReflow => some .conversationReflow
    | .syncSubmittedImagePlacements => some .imagePlacements
    | .motionTick => some .motionTick
    | .recapPoll => some .recapPoll
    | .syntaxHighlighterChanged => some .syntaxHighlighter
    | .setPullRequestCI _ => some .pullRequestCI
    | _ => none
  | _ => none

/-- Updates of the latest value may move across one another and across deltas, never across these. -/
def pendingEventBarrier (event : PendingAppEvent π) : Bool :=
  match event with
  | .ui (.textDeltas _) => false
  | .ui (.planDeltas _) => false
  | .ui (.reasoningDeltas _) => false
  | .ui (.exactUi (.loop loopEvent)) =>
    match loopEvent with
    | .textDelta _ => false
    | .planDelta _ => false
    | .reasoningDelta _ => false
    | .activityUpdated _ => false
    | .toolUpdated _ => false
    | .toolArgumentsUpdated _ => false
    | .toolOutputUpdated _ _ => false
    | _ => true
  | .ui (.exactUi _) => true
  | .event _ =>
    match pendingEventCoalesceKey event with
    | some _ => false
    | none => true

/-- Remove the last match, searching backwards up to the first barrier. -/
def removeLatestAfterBarrier (isMatch : PendingAppEvent π → Bool)
    (pending : List (PendingAppEvent π)) : List (PendingAppEvent π) :=
  go [] pending.reverse
where
  /-- `remaining` is in reverse order. -/
  go (suffix : List (PendingAppEvent π)) : List (PendingAppEvent π) → List (PendingAppEvent π)
    | [] => suffix
    | event :: rest =>
      if pendingEventBarrier event then (event :: rest).reverse ++ suffix
      else if isMatch event then rest.reverse ++ suffix
      else go (event :: suffix) rest

def appendLatestPendingEvent (event : PendingAppEvent π) (pending : List (PendingAppEvent π)) :
    List (PendingAppEvent π) :=
  match pendingEventCoalesceKey event with
  | none => pending ++ [event]
  | some key =>
    removeLatestAfterBarrier (fun queued => pendingEventCoalesceKey queued == some key) pending
      ++ [event]

/-- Merge adjacent frequent updates. -/
def mergeUiEvents : UiEvent → UiEvent → Option UiEvent
  | .loop (.textDelta left), .loop (.textDelta right) => some (.loop (.textDelta (left ++ right)))
  | .loop (.planDelta left), .loop (.planDelta right) => some (.loop (.planDelta (left ++ right)))
  | .loop (.reasoningDelta left), .loop (.reasoningDelta right) =>
    some (.loop (.reasoningDelta (left ++ right)))
  | .loop (.activityUpdated _), .loop (.activityUpdated latest) =>
    some (.loop (.activityUpdated latest))
  | _, _ => none

def appendExactUiEvent (event : UiEvent) (pending : List (PendingAppEvent π)) :
    List (PendingAppEvent π) :=
  match pending.getLast? with
  | some (.ui (.exactUi previous)) =>
    match mergeUiEvents previous event with
    | some merged => pending.dropLast ++ [.ui (.exactUi merged)]
    | none => appendLatestPendingEvent (.ui (.exactUi event)) pending
  | _ => appendLatestPendingEvent (.ui (.exactUi event)) pending

def appendExactAppEvent (event : AppEvent π) (pending : List (PendingAppEvent π)) :
    List (PendingAppEvent π) :=
  appendLatestPendingEvent (.event event) pending

def appendAppEvent (event : AppEvent π) (pending : List (PendingAppEvent π)) :
    List (PendingAppEvent π) :=
  match event with
  | .ui (.loop (.textDelta delta)) =>
    match pending.getLast? with
    | some (.ui (.textDeltas deltas)) => pending.dropLast ++ [.ui (.textDeltas (deltas ++ [delta]))]
    | _ => pending ++ [.ui (.textDeltas [delta])]
  | .ui (.loop (.planDelta delta)) =>
    match pending.getLast? with
    | some (.ui (.planDeltas deltas)) => pending.dropLast ++ [.ui (.planDeltas (deltas ++ [delta]))]
    | _ => pending ++ [.ui (.planDeltas [delta])]
  | .ui (.loop (.reasoningDelta delta)) =>
    match pending.getLast? with
    | some (.ui (.reasoningDeltas deltas)) =>
      pending.dropLast ++ [.ui (.reasoningDeltas (deltas ++ [delta]))]
    | _ => pending ++ [.ui (.reasoningDeltas [delta])]
  | .ui uiEvent => appendExactUiEvent uiEvent pending
  | _ => appendExactAppEvent event pending

/-! ### The queue and its budget -/

def appEventMailboxCapacity : ℕ := 4096

def appEventMailboxPayloadBudgetBytes : ℕ := 16 * 1024 * 1024

def appEventMailboxControlReserve : ℕ := 256

def appEventMailboxControlReserveBytes : ℕ := 2 * 1024 * 1024

def isControlAppEvent : AppEvent π → Bool
  | .ui (.loop event) =>
    match event with
    | .textDelta _ => false
    | .planDelta _ => false
    | .reasoningDelta _ => false
    | .activityUpdated _ => false
    | .toolUpdated _ => false
    | .toolOutputUpdated _ _ => false
    | _ => true
  | .agentSnapshot _ => false
  | .setWindowTitle _ => false
  | .dictationPartial _ => false
  | .conversationReflow => false
  | .syncSubmittedImagePlacements => false
  | .motionTick => false
  | .recapPoll => false
  | .syntaxHighlighterChanged => false
  | _ => true

def appEventCoalesceKey : AppEvent π → Option PendingEventCoalesceKey
  | .ui uiEvent => pendingEventCoalesceKey (π := π) (.ui (.exactUi uiEvent))
  | event => pendingEventCoalesceKey (.event event)

/-- What a text of the given length is charged. -/
def logicalTextChunkBytes (text : Text) : ℕ :=
  saturatingAdd 64 (if text.length ≥ maxBound / 4 then maxBound else text.length * 4)

/-- What events with other payloads are charged. -/
structure EventBytes (π : Type) where
  uiEventLogicalBytes : UiEvent → ℕ
  appEventLogicalBytes : AppEvent π → ℕ

def EventBytes.pendingAppEventLogicalBytes (bytes : EventBytes π) : PendingAppEvent π → ℕ
  | .ui (.exactUi event) => bytes.uiEventLogicalBytes event
  | .ui (.textDeltas deltas) | .ui (.planDeltas deltas) | .ui (.reasoningDeltas deltas) =>
    deltas.foldl (fun size text => saturatingAdd size (logicalTextChunkBytes text)) 0
  | .event event => bytes.appEventLogicalBytes event

def EventBytes.pendingAppEventsLogicalBytes (bytes : EventBytes π)
    (pending : List (PendingAppEvent π)) : ℕ :=
  pending.foldl (fun total event => saturatingAdd total (bytes.pendingAppEventLogicalBytes event)) 0

structure AppEventMailboxState (π : Type) where
  mailboxClosed : Bool
  mailboxPendingEvents : List (PendingAppEvent π)
  mailboxPendingCount : ℕ
  mailboxPendingBytes : ℕ
  mailboxHighWaterCount : ℕ
  mailboxHighWaterBytes : ℕ

def newAppEventMailbox : AppEventMailboxState π := ⟨false, [], 0, 0, 0, 0⟩

def appendAppEventAccounted (bytes : EventBytes π) (event : AppEvent π)
    (pending : List (PendingAppEvent π)) (oldBytes : ℕ) : List (PendingAppEvent π) × ℕ :=
  let updated := appendAppEvent event pending
  (updated,
    match event with
    | .ui (.loop (.textDelta delta)) => saturatingAdd oldBytes (logicalTextChunkBytes delta)
    | .ui (.loop (.planDelta delta)) => saturatingAdd oldBytes (logicalTextChunkBytes delta)
    | .ui (.loop (.reasoningDelta delta)) => saturatingAdd oldBytes (logicalTextChunkBytes delta)
    | _ => bytes.pendingAppEventsLogicalBytes updated)

/-- Enqueue an event; `none` while there is no room for it. -/
def enqueueMailboxEvent (bytes : EventBytes π) (event : AppEvent π)
    (state : AppEventMailboxState π) : Option (AppEventMailboxState π) :=
  if state.mailboxClosed then some state
  else
    let appended := appendAppEventAccounted bytes event state.mailboxPendingEvents
      state.mailboxPendingBytes
    let pending := appended.1
    let payloadBytes := appended.2
    let count := pending.length
    let control := isControlAppEvent event
    let countLimit := appEventMailboxCapacity + if control then appEventMailboxControlReserve else 0
    let byteLimit := appEventMailboxPayloadBudgetBytes
      + if control then appEventMailboxControlReserveBytes else 0
    -- one event is admitted even when it alone is over the budget
    let firstOversizedSingleton := state.mailboxPendingEvents.isEmpty && count == 1
    let oversizedKeyedReplacement := state.mailboxPendingEvents.length == 1 && count == 1
      && (appEventCoalesceKey event).isSome
    if count ≤ countLimit ∧ (payloadBytes ≤ byteLimit ∨ firstOversizedSingleton = true
        ∨ oversizedKeyedReplacement = true) then
      some { state with
        mailboxPendingEvents := pending
        mailboxPendingCount := count
        mailboxPendingBytes := payloadBytes
        mailboxHighWaterCount := max state.mailboxHighWaterCount count
        mailboxHighWaterBytes := max state.mailboxHighWaterBytes payloadBytes }
    else none

/-- Take the first event; `none` while there is none. -/
def takePendingAppEvent (bytes : EventBytes π) (state : AppEventMailboxState π) :
    Option (PendingAppEvent π × AppEventMailboxState π) :=
  match state.mailboxPendingEvents with
  | [] => none
  | event :: rest =>
    some (event, { state with
      mailboxPendingEvents := rest
      mailboxPendingCount := state.mailboxPendingCount - 1
      mailboxPendingBytes := state.mailboxPendingBytes - bytes.pendingAppEventLogicalBytes event })

/-- The first events of the interface, at most `limit`. -/
def uiEventPrefix : ℕ → List (PendingAppEvent π) → List PendingUiEvent × List (PendingAppEvent π)
  | 0, pending => ([], pending)
  | limit + 1, .ui event :: rest =>
    let taken := uiEventPrefix limit rest
    (event :: taken.1, taken.2)
  | _ + 1, pending => ([], pending)

def takePendingUiEventPrefix (bytes : EventBytes π) (limit : ℕ) (state : AppEventMailboxState π) :
    List PendingUiEvent × AppEventMailboxState π :=
  let taken := uiEventPrefix limit state.mailboxPendingEvents
  let removedBytes := (taken.1.map fun event => bytes.pendingAppEventLogicalBytes (.ui event)).sum
  (taken.1, { state with
    mailboxPendingEvents := taken.2
    mailboxPendingCount := state.mailboxPendingCount - taken.1.length
    mailboxPendingBytes := state.mailboxPendingBytes - removedBytes })

/-- What the screen is given for a queued event. -/
def pendingUiEvent : PendingUiEvent → UiEvent
  | .exactUi event => event
  | .textDeltas deltas => .loop (.textDelta deltas.flatten)
  | .planDeltas deltas => .loop (.planDelta deltas.flatten)
  | .reasoningDeltas deltas => .loop (.reasoningDelta deltas.flatten)

/-! ### The mailbox and its history -/

structure MailboxWorld (π : Type) where
  mailbox : AppEventMailboxState π
  /-- History: the events enqueued. -/
  enqueued : List (AppEvent π)
  /-- History: the events taken. -/
  delivered : List (PendingAppEvent π)

def MailboxWorld.init : MailboxWorld π := ⟨newAppEventMailbox, [], []⟩

inductive MailboxEvent (π : Type)
  | enqueue (event : AppEvent π)
  | take
  | takeUi (limit : ℕ)

def MailboxWorld.step (bytes : EventBytes π) (w : MailboxWorld π) :
    MailboxEvent π → Option (MailboxWorld π)
  | .enqueue event => do
    let mailbox ← enqueueMailboxEvent bytes event w.mailbox
    some { w with mailbox := mailbox, enqueued := w.enqueued ++ [event] }
  | .take => do
    let taken ← takePendingAppEvent bytes w.mailbox
    some { w with mailbox := taken.2, delivered := w.delivered ++ [taken.1] }
  | .takeUi limit =>
    let taken := takePendingUiEventPrefix bytes limit w.mailbox
    some { w with
      mailbox := taken.2
      delivered := w.delivered ++ taken.1.map .ui }

/-! ### Coalesced lists -/

inductive DeltaKind
  | text
  | plan
  | reasoning
  deriving DecidableEq, Repr

def DeltaKind.event : DeltaKind → Text → AppEvent π
  | .text, delta => .ui (.loop (.textDelta delta))
  | .plan, delta => .ui (.loop (.planDelta delta))
  | .reasoning, delta => .ui (.loop (.reasoningDelta delta))

/-- The kind and the text of a delta. -/
def AppEvent.delta : AppEvent π → Option (DeltaKind × Text)
  | .ui (.loop (.textDelta delta)) => some (.text, delta)
  | .ui (.loop (.planDelta delta)) => some (.plan, delta)
  | .ui (.loop (.reasoningDelta delta)) => some (.reasoning, delta)
  | _ => none

/-- The text of a delta of this kind, and no text of any other event. -/
def AppEvent.textOf (kind : DeltaKind) (event : AppEvent π) : Text :=
  match event.delta with
  | some (other, delta) => if other = kind then delta else []
  | none => []

/-- An event that is neither a delta nor a keyed update: it is delivered as it is. -/
def AppEvent.isExact (event : AppEvent π) : Bool :=
  event.delta.isNone && (appEventCoalesceKey event).isNone

/-- `output` is `input` without some keyed updates, each followed by a later one of its key with no
exact event between. -/
inductive Coalesced : List (AppEvent π) → List (AppEvent π) → Prop
  | nil : Coalesced [] []
  | keep {input output : List (AppEvent π)} (event : AppEvent π) (h : Coalesced input output) :
      Coalesced (event :: input) (event :: output)
  | superseded {input output before after : List (AppEvent π)} {event later : AppEvent π}
      (h : Coalesced input output) (hkey : (appEventCoalesceKey event).isSome = true)
      (hsplit : input = before ++ later :: after)
      (hlater : appEventCoalesceKey later = appEventCoalesceKey event)
      (hbefore : ∀ passed ∈ before, passed.isExact = false) : Coalesced (event :: input) output

/-- The text of a kind between one exact event and the next; `sofar` is what came before. -/
def stretches (kind : DeltaKind) : Text → List (AppEvent π) → List Text
  | _, [] => []
  | sofar, event :: events =>
    if event.isExact then sofar :: stretches kind [] events
    else stretches kind (sofar ++ event.textOf kind) events

/-- The events that a queued event stands for. -/
def PendingAppEvent.contents : PendingAppEvent π → List (AppEvent π)
  | .event appEvent => [appEvent]
  | .ui (.exactUi uiEvent) => [.ui uiEvent]
  | .ui (.textDeltas deltas) => deltas.map (DeltaKind.event .text)
  | .ui (.planDeltas deltas) => deltas.map (DeltaKind.event .plan)
  | .ui (.reasoningDeltas deltas) => deltas.map (DeltaKind.event .reasoning)

/-- What the screen is given for it. -/
def PendingAppEvent.shown : PendingAppEvent π → AppEvent π
  | .event appEvent => appEvent
  | .ui uiEvent => .ui (pendingUiEvent uiEvent)

variable {event : AppEvent π}

theorem isExact_of_key (h : (appEventCoalesceKey event).isSome = true) : event.isExact = false := by
  unfold AppEvent.isExact
  rw [Option.isNone_eq_false_iff.mpr h, Bool.and_false]

/-- A keyed update is no delta. -/
theorem textOf_of_key (h : (appEventCoalesceKey event).isSome = true) (kind : DeltaKind) :
    event.textOf kind = [] := by
  unfold AppEvent.textOf
  split
  · next hdelta =>
    unfold AppEvent.delta at hdelta
    split at hdelta
    · exact absurd h Bool.false_ne_true
    · exact absurd h Bool.false_ne_true
    · exact absurd h Bool.false_ne_true
    · cases hdelta
  · rfl

namespace Coalesced

variable {input output : List (AppEvent π)}

theorem concat_split {before after : List (AppEvent π)} {later : AppEvent π}
    (h : input = before ++ later :: after) (event : AppEvent π) :
    input ++ [event] = before ++ later :: (after ++ [event]) := by
  rw [h]
  exact append_assoc before (later :: after) [event]

theorem append (h : Coalesced input output) (event : AppEvent π) :
    Coalesced (input ++ [event]) (output ++ [event]) := by
  induction h with
  | nil => exact .keep event .nil
  | keep first _ ih => exact .keep first ih
  | superseded _ hkey hsplit hlater hbefore ih =>
    exact .superseded ih hkey (concat_split hsplit event) hlater hbefore

/-- Exact events are never omitted. -/
theorem isExact_eq_false (h : Coalesced input output)
    (hnone : ∀ event ∈ output, event.isExact = false) : ∀ event ∈ input, event.isExact = false := by
  induction h with
  | nil => exact hnone
  | keep first _ ih =>
    have hrest := ih fun event hevent => hnone event (mem_cons_of_mem _ hevent)
    intro event hevent
    rcases mem_cons.mp hevent with rfl | hevent
    · exact hnone event mem_cons_self
    · exact hrest event hevent
  | superseded _ hkey _ _ _ ih =>
    intro event hevent
    rcases mem_cons.mp hevent with rfl | hevent
    · exact isExact_of_key hkey
    · exact ih hnone event hevent

/-- A keyed update gives way to a later one of its key, unless an exact event stands between. -/
theorem replace {pre post : List (AppEvent π)} {old : AppEvent π} (event : AppEvent π)
    (h : Coalesced input (pre ++ old :: post)) (hkey : (appEventCoalesceKey old).isSome = true)
    (heq : appEventCoalesceKey event = appEventCoalesceKey old)
    (hpost : ∀ passed ∈ post, passed.isExact = false) :
    Coalesced (input ++ [event]) (pre ++ post ++ [event]) := by
  generalize hout : pre ++ old :: post = output at h
  induction h generalizing pre with
  | nil => exact absurd hout (append_ne_nil_of_right_ne_nil _ (cons_ne_nil _ _))
  | keep first hrest ih =>
    cases pre with
    | nil =>
      cases hout
      exact .superseded (hrest.append event) hkey rfl heq (hrest.isExact_eq_false hpost)
    | cons first' pre =>
      obtain ⟨rfl, hrest'⟩ := List.cons.inj hout
      exact .keep first' (ih hrest')
  | superseded _ hkey' hsplit hlater hbefore ih =>
    exact .superseded (ih hout) hkey' (concat_split hsplit event) hlater hbefore

theorem filter_isExact (h : Coalesced input output) :
    input.filter (·.isExact) = output.filter (·.isExact) := by
  induction h with
  | nil => rfl
  | keep first _ ih => rw [filter_cons, filter_cons, ih]
  | superseded _ hkey _ _ _ ih =>
    rw [filter_cons_of_neg (by rw [isExact_of_key hkey]; exact Bool.false_ne_true), ih]

theorem stretches_eq (h : Coalesced input output) (kind : DeltaKind) (sofar : Text) :
    stretches kind sofar input = stretches kind sofar output := by
  induction h generalizing sofar with
  | nil => rfl
  | keep first _ ih => rw [stretches, stretches, ih, ih]
  | superseded _ hkey _ _ _ ih =>
    rw [stretches, if_neg (by rw [isExact_of_key hkey]; exact Bool.false_ne_true),
      textOf_of_key hkey, List.append_nil, ih]

end Coalesced

/-! ### The queue is a coalesced list -/

/-- The events that queued events stand for. -/
def contentsOf (pending : List (PendingAppEvent π)) : List (AppEvent π) :=
  pending.flatMap (·.contents)

theorem contentsOf_append (l m : List (PendingAppEvent π)) :
    contentsOf (l ++ m) = contentsOf l ++ contentsOf m :=
  flatMap_append

theorem contentsOf_singleton (event : PendingAppEvent π) : contentsOf [event] = event.contents := by
  simp [contentsOf]

/-- A keyed queued event stands for one keyed event. -/
theorem contents_of_key {pending : PendingAppEvent π} {key : PendingEventCoalesceKey}
    (h : pendingEventCoalesceKey pending = some key) :
    ∃ event, pending.contents = [event] ∧ appEventCoalesceKey event = some key := by
  cases pending with
  | event event =>
    refine ⟨event, rfl, ?_⟩
    cases event <;> first | exact h | cases h
  | ui event =>
    cases event with
    | exactUi event => exact ⟨.ui event, rfl, h⟩
    | textDeltas deltas | planDeltas deltas | reasoningDeltas deltas => cases h

/-- What is no barrier stands for no exact event. -/
theorem contents_of_not_barrier {pending : PendingAppEvent π}
    (h : pendingEventBarrier pending = false) : ∀ event ∈ pending.contents, event.isExact = false := by
  cases pending with
  | event event =>
    intro event' hevent
    rw [PendingAppEvent.contents, mem_singleton] at hevent
    subst hevent
    simp only [pendingEventBarrier] at h
    split at h
    · next hkey =>
      obtain ⟨event, hcontents, hkey⟩ := contents_of_key hkey
      cases hcontents
      exact isExact_of_key (by rw [hkey]; rfl)
    · cases h
  | ui event =>
    cases event with
    | exactUi event =>
      intro event' hevent
      rw [PendingAppEvent.contents, mem_singleton] at hevent
      subst hevent
      cases event with
      | loop event => cases event <;> first | rfl | cases h
      | _ => cases h
    | textDeltas deltas | planDeltas deltas | reasoningDeltas deltas =>
      intro event hevent
      obtain ⟨delta, -, rfl⟩ := List.mem_map.mp hevent
      rfl

/-- A removal takes one match out, behind every barrier. -/
theorem removeLatestAfterBarrier_cases (isMatch : PendingAppEvent π → Bool)
    (pending : List (PendingAppEvent π)) :
    removeLatestAfterBarrier isMatch pending = pending ∨
      ∃ pre old post, pending = pre ++ old :: post ∧ isMatch old = true ∧
        (∀ passed ∈ post, pendingEventBarrier passed = false) ∧
        removeLatestAfterBarrier isMatch pending = pre ++ post := by
  suffices h : ∀ (reversed suffix : List (PendingAppEvent π)),
      (∀ passed ∈ suffix, pendingEventBarrier passed = false) →
      removeLatestAfterBarrier.go isMatch suffix reversed = reversed.reverse ++ suffix ∨
        ∃ pre old post, reversed.reverse ++ suffix = pre ++ old :: post ∧ isMatch old = true ∧
          (∀ passed ∈ post, pendingEventBarrier passed = false) ∧
          removeLatestAfterBarrier.go isMatch suffix reversed = pre ++ post by
    have hgo := h pending.reverse [] fun _ hmem => (nomatch hmem)
    rwa [reverse_reverse, List.append_nil] at hgo
  intro reversed
  induction reversed with
  | nil => exact fun suffix _ => .inl rfl
  | cons event rest ih =>
    intro suffix hsuffix
    unfold removeLatestAfterBarrier.go
    split
    · exact .inl rfl
    · next hbarrier =>
      rw [reverse_cons, append_assoc]
      split
      · next hmatch => exact .inr ⟨rest.reverse, event, suffix, rfl, hmatch, hsuffix, rfl⟩
      · refine ih (event :: suffix) fun passed hpassed => ?_
        rcases mem_cons.mp hpassed with rfl | hpassed
        · exact Bool.not_eq_true _ ▸ hbarrier
        · exact hsuffix passed hpassed

variable {input : List (AppEvent π)} {taken pending : List (PendingAppEvent π)}

section

variable (h : Coalesced input (contentsOf (taken ++ pending)))
include h

/-- The end of the queue is replaced by an event that stands for one more. -/
theorem coalesced_extend {last new : PendingAppEvent π} (hlast : pending.getLast? = some last)
    (hnew : new.contents = last.contents ++ [event]) :
    Coalesced (input ++ [event]) (contentsOf (taken ++ (pending.dropLast ++ [new]))) := by
  obtain ⟨rest, rfl⟩ := List.getLast?_eq_some_iff.mp hlast
  rw [dropLast_concat]
  have happend := h.append event
  rw [contentsOf_append, contentsOf_append, contentsOf_singleton] at happend
  rw [contentsOf_append, contentsOf_append, contentsOf_singleton, hnew]
  simpa only [append_assoc] using happend

theorem coalesced_concat {new : PendingAppEvent π} (hnew : new.contents = [event]) :
    Coalesced (input ++ [event]) (contentsOf (taken ++ (pending ++ [new]))) := by
  have happend := h.append event
  rw [← append_assoc, contentsOf_append, contentsOf_singleton, hnew]
  exact happend

theorem coalesced_latest {new : PendingAppEvent π} (hnew : new.contents = [event]) :
    Coalesced (input ++ [event]) (contentsOf (taken ++ appendLatestPendingEvent new pending)) := by
  unfold appendLatestPendingEvent
  split
  · exact coalesced_concat h hnew
  · next key hkey =>
    rcases removeLatestAfterBarrier_cases
        (fun queued => pendingEventCoalesceKey queued == some key) pending with
      heq | ⟨pre, old, post, hpending, hmatch, hpost, heq⟩
    · rw [heq]
      exact coalesced_concat h hnew
    · rw [heq]
      obtain ⟨oldEvent, hold, holdKey⟩ := contents_of_key (beq_iff_eq.mp hmatch)
      obtain ⟨newEvent, hcontents, hnewKey⟩ := contents_of_key hkey
      rw [hnew] at hcontents
      cases hcontents
      have hsplit : contentsOf (taken ++ pending)
          = contentsOf taken ++ contentsOf pre ++ oldEvent :: contentsOf post := by
        rw [hpending, append_cons, contentsOf_append, contentsOf_append, contentsOf_append,
          contentsOf_singleton, hold]
        simp only [append_assoc, singleton_append]
      rw [hsplit] at h
      have hreplace := h.replace event (by rw [holdKey]; rfl) (hnewKey.trans holdKey.symm)
        fun passed hpassed => by
          obtain ⟨queued, hqueued, hmem⟩ := mem_flatMap.mp hpassed
          exact contents_of_not_barrier (hpost queued hqueued) passed hmem
      rw [contentsOf_append, contentsOf_append, contentsOf_append, contentsOf_singleton, hnew]
      simpa only [append_assoc] using hreplace

end

/-- Only updates of the activity are merged in the queue of exact events. -/
theorem coalesced_exactUi (event : UiEvent) (hdelta : (AppEvent.ui (π := π) event).delta = none)
    (h : Coalesced input (contentsOf (taken ++ pending))) :
    Coalesced (input ++ [.ui event]) (contentsOf (taken ++ appendExactUiEvent event pending)) := by
  unfold appendExactUiEvent
  split
  · next previous hlast =>
    split
    · next merged hmerged =>
      unfold mergeUiEvents at hmerged
      split at hmerged
      · cases hdelta
      · cases hdelta
      · cases hdelta
      · next old latest =>
        cases hmerged
        obtain ⟨rest, rfl⟩ := List.getLast?_eq_some_iff.mp hlast
        let latestEvent : AppEvent π := .ui (.loop (.activityUpdated latest))
        rw [← append_assoc, contentsOf_append, contentsOf_singleton] at h
        have hreplace := h.replace latestEvent rfl rfl fun _ hmem => (nomatch hmem)
        rw [dropLast_concat, ← append_assoc, contentsOf_append, contentsOf_singleton]
        rw [List.append_nil] at hreplace
        exact hreplace
      · cases hmerged
    · exact coalesced_latest h rfl
  · exact coalesced_latest h rfl

/-- **Appending an event keeps the queue a coalesced list of the events.** -/
theorem coalesced_append (event : AppEvent π) (h : Coalesced input (contentsOf (taken ++ pending))) :
    Coalesced (input ++ [event]) (contentsOf (taken ++ appendAppEvent event pending)) := by
  unfold appendAppEvent
  split
  · next delta =>
    split
    · next deltas hlast => exact coalesced_extend h hlast map_append
    · exact coalesced_concat h rfl
  · next delta =>
    split
    · next deltas hlast => exact coalesced_extend h hlast map_append
    · exact coalesced_concat h rfl
  · next delta =>
    split
    · next deltas hlast => exact coalesced_extend h hlast map_append
    · exact coalesced_concat h rfl
  · next uiEvent htext hplan hreasoning =>
    refine coalesced_exactUi uiEvent ?_ h
    unfold AppEvent.delta
    split
    · next heq => exact (htext _ (AppEvent.ui.inj heq)).elim
    · next heq => exact (hplan _ (AppEvent.ui.inj heq)).elim
    · next heq => exact (hreasoning _ (AppEvent.ui.inj heq)).elim
    · rfl
  · exact coalesced_latest h rfl

/-! ### Runs -/

/-- The queue and what was taken from it are the coalesced events. -/
structure MailboxInvariant (w : MailboxWorld π) : Prop where
  opened : w.mailbox.mailboxClosed = false
  coalesced : Coalesced w.enqueued (contentsOf (w.delivered ++ w.mailbox.mailboxPendingEvents))

variable {bytes : EventBytes π}

theorem enqueueMailboxEvent_eq_some {state state' : AppEventMailboxState π}
    (hopen : state.mailboxClosed = false) (h : enqueueMailboxEvent bytes event state = some state') :
    state'.mailboxClosed = false ∧
      state'.mailboxPendingEvents = appendAppEvent event state.mailboxPendingEvents := by
  unfold enqueueMailboxEvent at h
  rw [if_neg (by rw [hopen]; exact Bool.false_ne_true)] at h
  obtain ⟨-, h⟩ := Option.ite_none_right_eq_some.mp h
  cases h
  exact ⟨hopen, rfl⟩

theorem takePendingAppEvent_eq_some {state : AppEventMailboxState π}
    {taken : PendingAppEvent π × AppEventMailboxState π}
    (h : takePendingAppEvent bytes state = some taken) :
    taken.2.mailboxClosed = state.mailboxClosed ∧
      state.mailboxPendingEvents = taken.1 :: taken.2.mailboxPendingEvents := by
  unfold takePendingAppEvent at h
  split at h
  · cases h
  · next event rest hpending =>
    cases h
    exact ⟨rfl, hpending⟩

theorem uiEventPrefix_append (limit : ℕ) (pending : List (PendingAppEvent π)) :
    (uiEventPrefix limit pending).1.map .ui ++ (uiEventPrefix limit pending).2 = pending := by
  induction limit generalizing pending with
  | zero => rfl
  | succ limit ih =>
    cases pending with
    | nil => rfl
    | cons event rest =>
      cases event with
      | event event => rfl
      | ui event =>
        show .ui event :: ((uiEventPrefix limit rest).1.map .ui ++ (uiEventPrefix limit rest).2) = _
        rw [ih rest]

theorem init_mailboxInvariant : MailboxInvariant (.init : MailboxWorld π) := ⟨rfl, .nil⟩

theorem mailboxInvariant_step {w w' : MailboxWorld π} {e : MailboxEvent π}
    (hI : MailboxInvariant w) (h : w.step bytes e = some w') : MailboxInvariant w' := by
  cases e with
  | enqueue event =>
    obtain ⟨mailbox, hmailbox, h⟩ := Option.bind_eq_some_iff.mp h
    cases h
    obtain ⟨hopen, hpending⟩ := enqueueMailboxEvent_eq_some hI.opened hmailbox
    refine ⟨hopen, ?_⟩
    show Coalesced (w.enqueued ++ [event]) (contentsOf (w.delivered ++ mailbox.mailboxPendingEvents))
    rw [hpending]
    exact coalesced_append event hI.coalesced
  | take =>
    obtain ⟨taken, htaken, h⟩ := Option.bind_eq_some_iff.mp h
    cases h
    obtain ⟨hopen, hpending⟩ := takePendingAppEvent_eq_some htaken
    refine ⟨hopen.trans hI.opened, ?_⟩
    have hcoalesced := hI.coalesced
    rw [hpending, append_cons] at hcoalesced
    exact hcoalesced
  | takeUi limit =>
    cases h
    refine ⟨hI.opened, ?_⟩
    have hcoalesced := hI.coalesced
    rw [← uiEventPrefix_append limit w.mailbox.mailboxPendingEvents, ← append_assoc]
      at hcoalesced
    exact hcoalesced

/-! ### What the screen is given -/

theorem filter_isExact_contents (pending : PendingAppEvent π) :
    pending.contents.filter (·.isExact) = [pending.shown].filter (·.isExact) := by
  have hdeltas : ∀ (kind : DeltaKind) (deltas : List Text),
      (deltas.map (DeltaKind.event (π := π) kind)).filter (·.isExact) = [] := by
    intro kind deltas
    rw [filter_eq_nil_iff]
    intro event hevent
    obtain ⟨delta, -, rfl⟩ := List.mem_map.mp hevent
    cases kind <;> exact Bool.false_ne_true
  cases pending with
  | event event => rfl
  | ui event =>
    cases event with
    | exactUi event => rfl
    | textDeltas deltas => exact hdeltas .text deltas
    | planDeltas deltas => exact hdeltas .plan deltas
    | reasoningDeltas deltas => exact hdeltas .reasoning deltas

theorem filter_isExact_contentsOf (pending : List (PendingAppEvent π)) :
    (contentsOf pending).filter (·.isExact) = (pending.map (·.shown)).filter (·.isExact) := by
  induction pending with
  | nil => rfl
  | cons event pending ih =>
    rw [show event :: pending = [event] ++ pending from rfl, contentsOf_append,
      contentsOf_singleton, filter_append, filter_isExact_contents, ih, map_append,
      filter_append]
    rfl

/-- A group of deltas and the one delta that is shown for it have the same text. -/
theorem stretches_deltas (kind group : DeltaKind) (deltas : List Text) (sofar : Text)
    (rest : List (AppEvent π)) :
    stretches kind sofar (deltas.map (DeltaKind.event group) ++ rest)
      = stretches kind sofar (DeltaKind.event group deltas.flatten :: rest) := by
  have hevent : ∀ (delta sofar : Text) (rest : List (AppEvent π)),
      stretches kind sofar (DeltaKind.event group delta :: rest)
        = stretches kind (sofar ++ if group = kind then delta else []) rest := by
    intro delta sofar rest
    cases group <;> rfl
  rw [hevent]
  induction deltas generalizing sofar with
  | nil => simp
  | cons delta deltas ih =>
    rw [map_cons, cons_append, hevent, ih, flatten_cons]
    split <;> simp

theorem stretches_shown (kind : DeltaKind) (sofar : Text) (pending : List (PendingAppEvent π)) :
    stretches kind sofar (contentsOf pending) = stretches kind sofar (pending.map (·.shown)) := by
  induction pending generalizing sofar with
  | nil => rfl
  | cons event pending ih =>
    have hcons : ∀ (shown : AppEvent π) (events : List (PendingAppEvent π)),
        (∀ sofar, stretches kind sofar (contentsOf events)
          = stretches kind sofar (events.map (·.shown))) →
        stretches kind sofar (shown :: contentsOf events)
          = stretches kind sofar (shown :: events.map (·.shown)) := by
      intro shown events hrest
      rw [stretches, stretches, hrest, hrest]
    rw [show event :: pending = [event] ++ pending from rfl, contentsOf_append,
      contentsOf_singleton]
    cases event with
    | event event => exact hcons event pending fun sofar => ih sofar
    | ui event =>
      cases event with
      | exactUi event => exact hcons (.ui event) pending fun sofar => ih sofar
      | textDeltas deltas =>
        exact (stretches_deltas kind .text deltas sofar _).trans (hcons _ pending fun s => ih s)
      | planDeltas deltas =>
        exact (stretches_deltas kind .plan deltas sofar _).trans (hcons _ pending fun s => ih s)
      | reasoningDeltas deltas =>
        exact (stretches_deltas kind .reasoning deltas sofar _).trans (hcons _ pending fun s => ih s)

theorem stretches_prefix (kind : DeltaKind) (sofar : Text) (l m : List (AppEvent π)) :
    stretches kind sofar l <+: stretches kind sofar (l ++ m) := by
  induction l generalizing sofar with
  | nil => exact nil_prefix
  | cons event l ih =>
    rw [cons_append, stretches, stretches]
    split
    · exact (prefix_cons_inj _).mpr (ih [])
    · exact ih _

/-- What is delivered, and then what is still queued, refines the plain queue. -/
structure RefinesFifo (w : MailboxWorld π) : Prop where
  /-- What is neither a delta nor a keyed update is delivered once, and in order. -/
  exact : (w.delivered.map (·.shown)).filter (·.isExact) <+: w.enqueued.filter (·.isExact)
  complete : ((w.delivered ++ w.mailbox.mailboxPendingEvents).map (·.shown)).filter (·.isExact)
    = w.enqueued.filter (·.isExact)
  /-- Between two exact events the text of each kind is the enqueued one. -/
  text : ∀ kind, stretches kind [] (w.delivered.map (·.shown)) <+: stretches kind [] w.enqueued
  /-- A keyed update is left out only before a later one of its key, with no barrier between. -/
  keyed : Coalesced w.enqueued (contentsOf (w.delivered ++ w.mailbox.mailboxPendingEvents))

/-- **What is delivered refines the queue of the enqueued events.** -/
theorem mailbox_refines_fifo (bytes : EventBytes π) {w : MailboxWorld π}
    (h : Reachable (MailboxWorld.step bytes) .init w) : RefinesFifo w := by
  have hI : MailboxInvariant w := ReachableBy.invariant h init_mailboxInvariant
    fun _ _ _ hI _ hstep => mailboxInvariant_step hI hstep
  have hfilter := hI.coalesced.filter_isExact
  rw [filter_isExact_contentsOf] at hfilter
  refine ⟨?_, hfilter.symm, fun kind => ?_, hI.coalesced⟩
  · rw [hfilter, map_append, filter_append]
    exact prefix_append _ _
  · rw [hI.coalesced.stretches_eq, stretches_shown, map_append]
    exact stretches_prefix kind [] _ _

/-- Two window titles with a delta between, and a barrier before the last take. -/
def mailboxRun : List (MailboxEvent Unit) :=
  [.enqueue (.setWindowTitle ()), .enqueue (.ui (.loop (.textDelta ['a']))),
    .enqueue (.setWindowTitle ()), .enqueue (.ui (.loop (.textDelta ['b']))), .take,
    .enqueue (.ui (.loop (.textDelta ['c']))), .enqueue .stop, .take, .takeUi 5, .take]

theorem mailbox_refines_fifo_in_mailboxRun :
    ∃ w : MailboxWorld Unit, Reachable (MailboxWorld.step ⟨fun _ => 0, fun _ => 0⟩) .init w ∧
      w.enqueued.length = 6 ∧ w.delivered.length = 4 ∧ RefinesFifo w := by
  have hrun : (Machine.run (MailboxWorld.step ⟨fun _ => 0, fun _ => 0⟩) .init mailboxRun).any
        (fun w => decide (w.enqueued.length = 6 ∧ w.delivered.length = 4)) = true := by
    decide +kernel
  obtain ⟨w, hw, htest⟩ := exists_reachable_of_run hrun
  obtain ⟨henqueued, hdelivered⟩ := decide_eq_true_eq.mp htest
  exact ⟨w, hw, henqueued, hdelivered, mailbox_refines_fifo _ hw⟩

end TUI

end HaskellAgent
