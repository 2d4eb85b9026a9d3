import HaskellAgent.Lib.Json
import HaskellAgent.Lib.Machine
import HaskellAgent.Loop.Events

/-!
# Observing a session

A running session publishes the events of its current turn to read-only observers.  The publication
keeps a bounded journal of them.  A subscriber polls it with a cursor, the turn and the sequence
number of the last frame it was sent: it gets the events behind its cursor, or, where the journal no
longer reaches back to it, all that is left.

The identifiers of turns are drawn at random; here they come with the event that begins a turn.
-/

namespace HaskellAgent
namespace Observation

inductive SessionObservationState
  | running
  | waiting
  | completed
  | interrupted
  deriving DecidableEq

inductive SessionObservationEventKind
  | text
  | reasoning
  | plan
  | activity
  | warning
  | toolStarted
  | toolUpdated
  | toolOutput
  | toolFinished
  | toolRetracted
  | responseRestarted
  | responseDiscarded
  | responseFailed
  | agentStarted
  | agentOutput
  | agentFinished
  deriving DecidableEq

structure SessionObservationEvent where
  kind : SessionObservationEventKind
  identifier : Text
  name : Text
  text : Text
  arguments : Text
  isError : Bool
  summary : Text
  argumentsEncrypted : Bool
  isAsync : Bool
  isTruncated : Bool
  deriving DecidableEq

structure SessionObservationFrame where
  ownerID : Text
  turnID : Text
  /-- A `Word64`. -/
  sequence : ℕ
  generationStart : Int64
  durableTurnCount : Int64
  state : SessionObservationState
  reset : Bool
  truncated : Bool
  userText : Text
  events : List SessionObservationEvent
  deriving DecidableEq

structure RetainedEvent where
  eventSequence : ℕ
  eventSize : ℤ
  event : SessionObservationEvent
  deriving DecidableEq

structure PublicationState where
  frame : SessionObservationFrame
  retained : List RetainedEvent
  retainedBytes : ℤ
  deriving DecidableEq

def retainedByteLimit : ℤ := 4 * 1024 * 1024

def retainedEventLimit : ℕ := 8192

def fieldCharacterLimit : ℕ := 65536

/-- The successor of a `Word64`. -/
def nextSequence (sequence : ℕ) : ℕ := (sequence + 1) % 2 ^ 64

/-! ### Events -/

def boundText (text : Text) : Text := text.take fieldCharacterLimit

def boundEvent (event : SessionObservationEvent) : SessionObservationEvent :=
  { event with
    identifier := boundText event.identifier
    name := boundText event.name
    text := boundText event.text
    arguments := boundText event.arguments
    summary := boundText event.summary
    isTruncated := event.isTruncated ||
      [event.identifier, event.name, event.text, event.arguments, event.summary].any
        fun field => fieldCharacterLimit < field.length }

/-- The bytes of the texts of an event. -/
def textBytes (event : SessionObservationEvent) : ℕ :=
  ([event.identifier, event.name, event.text, event.arguments, event.summary].map utf8Length).sum

def eventBytes (event : SessionObservationEvent) : ℤ := 128 + textBytes event

/-- Inline screenshots are never published, not even in part.  No character outside ASCII has one of
the letters looked for as its lower case. -/
def redactImageOutput (output : Text) : Text :=
  if (output.map Char.toLower).tails.any ("data:image/".toList.isPrefixOf ·) then
    "Screenshot omitted from event".toList
  else output

def toolOutcomeSucceeded : ToolOutcome → Bool
  | .succeeded => true
  | .shellRunning _ => true
  | .shellExited code => code == 0
  | _ => false

def showNativeAgentStatus : NativeAgentStatus → Text
  | .running => "NativeAgentRunning".toList
  | .completed => "NativeAgentCompleted".toList
  | .failed => "NativeAgentFailed".toList
  | .cancelled => "NativeAgentCancelled".toList

def message (kind : SessionObservationEventKind) (text : Text) : SessionObservationEvent where
  kind
  identifier := []
  name := []
  text
  arguments := []
  isError := false
  summary := []
  argumentsEncrypted := false
  isAsync := false
  isTruncated := false

def tool (kind : SessionObservationEventKind) (call : ToolCall) : SessionObservationEvent where
  kind
  identifier := call.callId
  name := call.name
  text := []
  arguments := if call.argumentsEncrypted then [] else call.arguments
  isError := false
  summary := call.name
  argumentsEncrypted := call.argumentsEncrypted
  isAsync := call.mode == .async
  isTruncated := false

def observationEvent : LoopEvent → Option SessionObservationEvent
  | .textDelta text => some (message .text text)
  | .reasoningDelta text => some (message .reasoning text)
  | .planDelta text => some (message .plan text)
  | .activityUpdated text => some (message .activity text)
  | .warningRaised text => some (message .warning text)
  | .responseRestarted text => some (message .responseRestarted text)
  | .responseAttemptDiscarded => some (message .responseDiscarded [])
  | .responseAttemptFailed => some (message .responseFailed [])
  | .toolStarted call => some (tool .toolStarted call)
  | .toolUpdated call => some (tool .toolUpdated call)
  | .toolArgumentsUpdated call => some (tool .toolUpdated call)
  | .toolOutputUpdated identifier text =>
      some { message .toolOutput (redactImageOutput text) with identifier }
  | .toolFinished result => some
      { kind := .toolFinished
        identifier := result.callId
        name := []
        text := redactImageOutput result.output
        arguments := []
        isError := result.toolResultOutcome.elim false fun outcome => !toolOutcomeSucceeded outcome
        summary := []
        argumentsEncrypted := false
        isAsync := result.toolResultMode == .async
        isTruncated := false }
  | .toolRetracted identifier => some { message .toolRetracted [] with identifier }
  | .nativeAgentStarted identifier name task _ =>
      some { message .agentStarted task with identifier, name := name.getD [] }
  | .nativeAgentOutput identifier text => some { message .agentOutput text with identifier }
  | .nativeAgentFinished identifier status =>
      some { message .agentFinished (showNativeAgentStatus status) with
        identifier
        isError := status == .failed }
  | .turnStarted => none
  -- the durable append completes a turn, not the provider
  | .turnFinished _ => none
  | .modelContextReset => none
  | .providerLimitUpdated _ _ => none

/-! ### The publication -/

def initialPublication (ownerID : Text) : PublicationState where
  frame :=
    { ownerID
      turnID := []
      sequence := 0
      generationStart := 0
      durableTurnCount := 0
      state := .waiting
      reset := true
      truncated := false
      userText := []
      events := [] }
  retained := []
  retainedBytes := 0

def beginObservedTurn (turnID : Text) (generationStart durableTurnCount : Int64) (userText : Text)
    (current : PublicationState) : PublicationState where
  frame := { current.frame with
    turnID
    generationStart
    durableTurnCount
    sequence := nextSequence current.frame.sequence
    state := .running
    userText := boundText userText
    truncated := decide (fieldCharacterLimit < userText.length) }
  retained := []
  retainedBytes := 0

def completeObservedTurn (generationStart durableTurnCount : Int64) (interrupted : Bool)
    (current : PublicationState) : PublicationState :=
  { current with frame := { current.frame with
    generationStart
    durableTurnCount
    sequence := nextSequence current.frame.sequence
    state := if interrupted then .interrupted else .completed } }

def setObservedWaiting (waiting : Bool) (current : PublicationState) : PublicationState :=
  { current with frame := { current.frame with
    sequence := nextSequence current.frame.sequence
    state := if waiting then .waiting else .running } }

/-- `trimPublication` with the events that are retained given apart. -/
def trimRetained (current : PublicationState) : List RetainedEvent → PublicationState
  | [] => { current with retained := [] }
  | oldest :: remaining =>
      if current.retainedBytes ≤ retainedByteLimit ∧
          (oldest :: remaining).length ≤ retainedEventLimit then
        { current with retained := oldest :: remaining }
      else
        trimRetained
          { current with
            frame := { current.frame with truncated := true }
            retainedBytes := current.retainedBytes - oldest.eventSize } remaining

def trimPublication (current : PublicationState) : PublicationState :=
  trimRetained current current.retained

/-- The publication with one more event, before it is trimmed. -/
def appendEvent (original : SessionObservationEvent) (current : PublicationState) :
    PublicationState :=
  let event := boundEvent original
  let size := eventBytes event
  let sequence := nextSequence current.frame.sequence
  { frame := { current.frame with
      sequence
      truncated := current.frame.truncated || original != event }
    retained := current.retained ++ [⟨sequence, size, event⟩]
    retainedBytes := current.retainedBytes + size }

def publishObserved (original : SessionObservationEvent) (current : PublicationState) :
    PublicationState :=
  trimPublication (appendEvent original current)

def frameSince (previous : Option (Text × ℕ)) (current : PublicationState) :
    SessionObservationFrame :=
  let reset :=
    match previous with
    | none => true
    | some (turnID, sequence) =>
        turnID != current.frame.turnID ||
          match current.retained with
          | [] => false
          | oldest :: _ => decide (nextSequence sequence < oldest.eventSequence)
  let after := previous.elim 0 (·.2)
  let selected :=
    if reset then current.retained
    else current.retained.filter fun event => decide (after < event.eventSequence)
  { current.frame with reset, events := selected.map (·.event) }

/-! ### The publication with an observer -/

/-- A frame that was sent, with what was retained when it was made. -/
structure Delivered where
  frame : SessionObservationFrame
  retained : List SessionObservationEvent

/-- The cursor kept for a subscriber, and the events its observer holds. -/
structure Observer where
  previous : Option (Text × ℕ)
  held : List SessionObservationEvent
  /-- The last frame, which is history. -/
  last : Option Delivered

/-- The publication and an observer.  The log of all events published, the identifiers that have been
drawn and the number of updates are history. -/
structure ObservedWorld where
  publication : PublicationState
  observer : Observer
  log : List (Text × RetainedEvent)
  drawn : List Text
  updates : ℕ

inductive Action
  | beginTurn (turnID : Text) (generationStart durableTurnCount : Int64) (userText : Text)
  | publish (event : LoopEvent)
  | setWaiting (waiting : Bool)
  | complete (generationStart durableTurnCount : Int64) (interrupted : Bool)
  /-- The subscriber is sent a frame. -/
  | poll
  /-- The observer is disconnected, and connects again. -/
  | reconnect

/-- What `randomIdentifier` draws: the hexadecimal digits of a digest, never the same again. -/
def isFreshIdentifier (drawn : List Text) (identifier : Text) : Bool :=
  identifier.length == 64 &&
    identifier.all (fun c => ('0' ≤ c && c ≤ '9') || ('a' ≤ c && c ≤ 'f')) &&
    !drawn.contains identifier

def Observer.receive (observer : Observer) (frame : SessionObservationFrame)
    (retained : List SessionObservationEvent) : Observer where
  previous := some (frame.turnID, frame.sequence)
  held := if frame.reset then frame.events else observer.held ++ frame.events
  last := some ⟨frame, retained⟩

def publishObservedLoopEvent (event : LoopEvent) (world : ObservedWorld) : ObservedWorld :=
  match observationEvent event with
  | none => world
  | some original =>
      { world with
        publication := publishObserved original world.publication
        log := world.log ++ [(world.publication.frame.turnID,
          { eventSequence := nextSequence world.publication.frame.sequence
            eventSize := eventBytes (boundEvent original)
            event := boundEvent original })]
        updates := world.updates + 1 }

def ObservedWorld.step (world : ObservedWorld) : Action → Option ObservedWorld
  | .beginTurn turnID generationStart durableTurnCount userText =>
      if isFreshIdentifier world.drawn turnID then some
        { world with
          publication :=
            beginObservedTurn turnID generationStart durableTurnCount userText world.publication
          drawn := turnID :: world.drawn
          updates := world.updates + 1 }
      else none
  | .publish event => some (publishObservedLoopEvent event world)
  | .setWaiting waiting => some
      { world with
        publication := setObservedWaiting waiting world.publication
        updates := world.updates + 1 }
  | .complete generationStart durableTurnCount interrupted => some
      { world with
        publication :=
          completeObservedTurn generationStart durableTurnCount interrupted world.publication
        updates := world.updates + 1 }
  | .poll =>
      let current := world.publication
      -- a subscriber waits for a turn, and then for a change
      if current.frame.turnID.isEmpty then none
      else if world.observer.previous.any fun previous => previous.2 == current.frame.sequence then
        none
      else some
        { world with
          observer := world.observer.receive (frameSince world.observer.previous current)
            (current.retained.map (·.event)) }
  | .reconnect => some { world with observer := { world.observer with previous := none } }

/-- A session whose owner has been drawn, and an observer who has not seen anything yet. -/
def initialWorld (ownerID : Text) : ObservedWorld where
  publication := initialPublication ownerID
  observer := ⟨none, [], none⟩
  log := []
  drawn := []
  updates := 0

end Observation
end HaskellAgent
