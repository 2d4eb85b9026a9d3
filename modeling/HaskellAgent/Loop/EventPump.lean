import HaskellAgent.Lib.Lists
import HaskellAgent.Lib.Machine
import HaskellAgent.Loop.Input
import Mathlib.Data.List.Nodup

/-!
# The event pump

Producers hand display events to one worker through a bounded queue.  Adjacent streamed texts are
coalesced: the last queue node stays mutable, and while it is the tail, texts of its key are
appended to it (or replace its snapshot) instead of taking another slot.  The worker takes a node
and reads its text in two transactions, so the node may still change in between.

Transactional variables are addresses into `buffers`, `snapshots` and `flushed`; a transaction that
retries is `none`.
-/

namespace HaskellAgent

/-! ### The pump -/

variable {κ ε : Type*}

/-- A queue node whose text may still grow or be replaced. -/
inductive CoalescedEvent (κ ε : Type*)
  | appendedEvent (key : κ) (build : Text → ε) (buffer : ℕ)
  | replacedEvent (key : κ) (build : Text → ε) (snapshot : ℕ)

inductive EventPumpCommand (κ ε : Type*)
  | deliverEvent (event : ε)
  | deliverCoalescedEvent (pending : CoalescedEvent κ ε)
  | flushEvents (flushed : ℕ)

/-- The variables of a pump. -/
structure EventPump (κ ε : Type*) where
  eventPumpQueue : List (EventPumpCommand κ ε)
  eventPumpFailure : Bool
  eventPumpTail : Option (CoalescedEvent κ ε)
  eventPumpTailBytes : ℤ
  eventPumpQueuedPayloadBytes : ℤ
  buffers : ℕ → TextBuffer
  snapshots : ℕ → Text
  flushed : ℕ → Bool
  /-- The next address that is not in use. -/
  fresh : ℕ

def newEventPump : EventPump κ ε where
  eventPumpQueue := []
  eventPumpFailure := false
  eventPumpTail := none
  eventPumpTailBytes := 0
  eventPumpQueuedPayloadBytes := 0
  buffers := fun _ => emptyTextBuffer
  snapshots := fun _ => []
  flushed := fun _ => false
  fresh := 0

def eventQueueCapacity : ℕ := 256

def eventTailPayloadBudgetBytes : ℤ := 8 * 1024 * 1024

def eventTailPayloadBudgetCodeUnits : ℕ := (8 * 1024 * 1024 - 64) / 4

/-! ### Payload budgets -/

def saturatingPayloadAdd (left right : ℤ) : ℤ :=
  if right > maxBound - left then maxBound else left + right

def saturatingPayloadMultiply (left right : ℤ) : ℤ :=
  if left ≤ 0 ∨ right ≤ 0 then 0
  else if left > maxBound / right then maxBound
  else left * right

def logicalTextBytesFromLength (size : ℤ) : ℤ := if size ≥ maxBound / 4 then maxBound else size * 4

/-- The payload of a snapshot. -/
def logicalSnapshotBytes (text : Text) : ℤ := logicalTextBytesFromLength text.length

def logicalTextBufferBytes (size chunks : ℤ) : ℤ :=
  saturatingPayloadAdd (logicalTextBytesFromLength size) (saturatingPayloadMultiply chunks 64)

/-- Account for the payload of the tail; retries while it does not fit. -/
def reserveTailPayloadBytes (pump : EventPump κ ε) (allowInitialOversize : Bool) (bytes : ℤ) :
    Option (EventPump κ ε) :=
  let retainedQueuedBytes := max 0 (pump.eventPumpQueuedPayloadBytes - pump.eventPumpTailBytes)
  let newQueuedBytes := saturatingPayloadAdd retainedQueuedBytes bytes
  if newQueuedBytes ≤ eventTailPayloadBudgetBytes ∨
      allowInitialOversize ∧ retainedQueuedBytes = 0 then
    some { pump with
      eventPumpTailBytes := bytes
      eventPumpQueuedPayloadBytes := newQueuedBytes }
  else none

def releaseQueuedPayloadBytes (pump : EventPump κ ε) (bytes : ℤ) : EventPump κ ε :=
  { pump with eventPumpQueuedPayloadBytes := max 0 (pump.eventPumpQueuedPayloadBytes - bytes) }

def coalescedPayloadBytes (pump : EventPump κ ε) : CoalescedEvent κ ε → ℤ
  | .appendedEvent _ _ buffer =>
      logicalTextBufferBytes (pump.buffers buffer).size (pump.buffers buffer).count
  | .replacedEvent _ _ snapshot => logicalSnapshotBytes (pump.snapshots snapshot)

/-! ### The transactions -/

def clearEventPumpTail (pump : EventPump κ ε) : EventPump κ ε :=
  match pump.eventPumpTail with
  | none => pump
  | some _ => { pump with eventPumpTail := none, eventPumpTailBytes := 0 }

/-- `writeTBQueue`, which retries while the queue is full. -/
def writeEventPumpQueue (pump : EventPump κ ε) (command : EventPumpCommand κ ε) :
    Option (EventPump κ ε) :=
  if pump.eventPumpQueue.length < eventQueueCapacity then
    some { pump with eventPumpQueue := pump.eventPumpQueue ++ [command] }
  else none

/-- Enqueue a command that forms a coalescing boundary. -/
def enqueueEventPumpCommand (pump : EventPump κ ε) (command : EventPumpCommand κ ε) :
    Option (EventPump κ ε) :=
  writeEventPumpQueue (clearEventPumpTail pump) command

/-- A new tail node, accounted for and enqueued. -/
def startNode (pump : EventPump κ ε) (pending : CoalescedEvent κ ε) (allowInitialOversize : Bool)
    (payloadBytes : ℤ) : Option (EventPump κ ε) :=
  (reserveTailPayloadBytes { pump with eventPumpTail := some pending } allowInitialOversize
    payloadBytes).bind fun reserved => writeEventPumpQueue reserved (.deliverCoalescedEvent pending)

/-- `newTVar` for a text buffer. -/
def newBuffer (pump : EventPump κ ε) (buffer : TextBuffer) : EventPump κ ε :=
  { pump with
    buffers := Function.update pump.buffers pump.fresh buffer
    fresh := pump.fresh + 1 }

/-- `newTVar` for a snapshot. -/
def newSnapshot (pump : EventPump κ ε) (text : Text) : EventPump κ ε :=
  { pump with
    snapshots := Function.update pump.snapshots pump.fresh text
    fresh := pump.fresh + 1 }

def startAppendedEvent (pump : EventPump κ ε) (key : κ) (build : Text → ε) (text : Text) :
    Option (EventPump κ ε) :=
  startNode (newBuffer (clearEventPumpTail pump) (appendTextBuffer text emptyTextBuffer))
    (.appendedEvent key build pump.fresh) false
    (logicalTextBufferBytes text.length (if text.isEmpty then 0 else 1))

def startReplacedEvent (pump : EventPump κ ε) (key : κ) (build : Text → ε) (text : Text) :
    Option (EventPump κ ε) :=
  startNode (newSnapshot (clearEventPumpTail pump) text) (.replacedEvent key build pump.fresh) true
    (logicalSnapshotBytes text)

/-- The transaction of `emitAppendedText`: append to an adjacent node of the key, or start one. -/
def enqueueChunk [DecidableEq κ] (pump : EventPump κ ε) (key : κ) (build : Text → ε)
    (text : Text) : Option (EventPump κ ε) :=
  match pump.eventPumpTail with
  | some (.appendedEvent currentKey _ buffer) =>
      if currentKey = key then
        let buffered := pump.buffers buffer
        let payloadBytes := logicalTextBufferBytes (buffered.size + text.length)
          (buffered.count + if text.isEmpty then 0 else 1)
        (reserveTailPayloadBytes pump false payloadBytes).map fun reserved =>
          { reserved with
            buffers := Function.update reserved.buffers buffer (appendTextBuffer text buffered) }
      -- the node keeps the builder of its first chunk, whatever later chunks bring
      else startAppendedEvent pump key build text
  | _ => startAppendedEvent pump key build text

/-- The transaction of `emitLatestText`: replace an adjacent snapshot of the key, or start one. -/
def enqueueSnapshot [DecidableEq κ] (pump : EventPump κ ε) (key : κ) (build : Text → ε)
    (text : Text) : Option (EventPump κ ε) :=
  match pump.eventPumpTail with
  | some (.replacedEvent currentKey _ snapshot) =>
      if currentKey = key then
        reserveTailPayloadBytes
          { pump with snapshots := Function.update pump.snapshots snapshot text } true
          (logicalSnapshotBytes text)
      else startReplacedEvent pump key build text
  | _ => startReplacedEvent pump key build text

/-- Whether the tail is this very node. -/
def sameCoalescedEvent [DecidableEq κ] :
    Option (CoalescedEvent κ ε) → CoalescedEvent κ ε → Bool
  | some (.appendedEvent leftKey _ leftBuffer), .appendedEvent rightKey _ rightBuffer =>
      leftKey = rightKey && leftBuffer = rightBuffer
  | some (.replacedEvent leftKey _ leftSnapshot), .replacedEvent rightKey _ rightSnapshot =>
      leftKey = rightKey && leftSnapshot = rightSnapshot
  | _, _ => false

/-- The text a node holds. -/
def EventPump.content (pump : EventPump κ ε) : CoalescedEvent κ ε → Text
  | .appendedEvent _ _ buffer => textBufferToText (pump.buffers buffer)
  | .replacedEvent _ _ snapshot => pump.snapshots snapshot

def CoalescedEvent.build : CoalescedEvent κ ε → Text → ε
  | .appendedEvent _ build _ => build
  | .replacedEvent _ build _ => build

def materializeCoalescedEvent (pump : EventPump κ ε) (pending : CoalescedEvent κ ε) : ε :=
  pending.build (pump.content pending)

/-- The worker's second transaction: close the node if it is still the tail, and read it. -/
def takeCoalescedEvent [DecidableEq κ] (pump : EventPump κ ε) (pending : CoalescedEvent κ ε) :
    ε × EventPump κ ε :=
  -- once read, the node takes no more text: a later chunk starts a node of its own
  let closed :=
    if sameCoalescedEvent pump.eventPumpTail pending then
      { pump with eventPumpTail := none, eventPumpTailBytes := 0 }
    else pump
  (materializeCoalescedEvent closed pending,
    releaseQueuedPayloadBytes closed (coalescedPayloadBytes closed pending))

/-! ### Producers and the worker -/

/-- A call of a producer. -/
inductive PumpRequest (κ ε : Type*)
  | emitEvent (event : ε)
  | emitAppendedText (key : κ) (build : Text → ε) (text : Text)
  | emitLatestText (key : κ) (build : Text → ε) (text : Text)
  | flushEventPump

inductive PumpProgress (κ ε : Type*)
  /-- The rest of the request that is still to be enqueued. -/
  | enqueuing (rest : PumpRequest κ ε)
  /-- A flush waits for the worker. -/
  | awaiting (flushed : ℕ)
  | returned (success : Bool)

/-- What one transaction of a producer put into the stream of events. -/
inductive Emission (κ ε : Type*)
  | event (event : ε)
  | appended (key : κ) (build : Text → ε) (text : Text)
  | latest (key : κ) (build : Text → ε) (text : Text)

structure PumpCall (κ ε : Type*) where
  request : PumpRequest κ ε
  progress : PumpProgress κ ε
  /-- How much had been emitted when a flush was enqueued. -/
  emittedBefore : ℕ

/-- Where the worker is in `runEventPump`. -/
inductive PumpWorker (κ ε : Type*)
  | reading
  /-- A coalesced node was dequeued and not yet read. -/
  | taken (pending : CoalescedEvent κ ε)
  | flushing (flushed : ℕ)
  /-- The sink is running. -/
  | delivering
  /-- The sink has failed. -/
  | failing
  | stopped

/-- A pump with its worker, the calls of its producers, and what happened. -/
structure PumpWorld (κ ε : Type*) where
  pump : EventPump κ ε
  worker : PumpWorker κ ε
  calls : List (PumpCall κ ε)
  /-- The emissions in the order of their transactions, with the number of their call. -/
  emitted : List (ℕ × Emission κ ε)
  /-- The events handed to the sink. -/
  handed : List ε
  /-- The events on which the sink returned. -/
  delivered : List ε

def PumpWorld.initial : PumpWorld κ ε where
  pump := newEventPump
  worker := .reading
  calls := []
  emitted := []
  handed := []
  delivered := []

/-- The next chunk of `emitAppendedText`, and the rest if there is one. -/
def nextChunk (text : Text) : Text × Option Text :=
  if text.isEmpty then (text, none)
  else if text.length ≤ eventTailPayloadBudgetCodeUnits then (text, none)
  else
    let (chunk0, rest) := text.splitAt eventTailPayloadBudgetCodeUnits
    (chunk0, if rest.isEmpty then none else some rest)

/-- The next transaction of a request: the pump after it, what it emitted, and what is left of the
request. -/
def PumpRequest.enqueue [DecidableEq κ] (pump : EventPump κ ε) :
    PumpRequest κ ε → Option (EventPump κ ε × List (Emission κ ε) × PumpProgress κ ε)
  | .emitEvent event =>
      (enqueueEventPumpCommand pump (.deliverEvent event)).map fun next =>
        (next, [.event event], .returned true)
  | .emitAppendedText key build text =>
      -- one transaction for each chunk: other producers may come between
      let (chunk, rest) := nextChunk text
      (enqueueChunk pump key build chunk).map fun next =>
        (next, [.appended key build chunk],
          match rest with
          | none => .returned true
          | some rest => .enqueuing (.emitAppendedText key build rest))
  | .emitLatestText key build text =>
      (enqueueSnapshot pump key build text).map fun next =>
        (next, [.latest key build text], .returned true)
  | .flushEventPump =>
      (enqueueEventPumpCommand
        { pump with flushed := Function.update pump.flushed pump.fresh false
                    fresh := pump.fresh + 1 }
        (.flushEvents pump.fresh)).map fun next =>
        (next, [], .awaiting pump.fresh)

inductive PumpEvent (κ ε : Type*)
  /-- A producer calls the pump. -/
  | call (request : PumpRequest κ ε)
  /-- A call runs its next transaction. -/
  | enqueue (index : ℕ)
  /-- A waiting flush wakes. -/
  | wake (index : ℕ)
  | dequeue
  | take
  | acknowledge
  | sinkReturns
  | sinkFails
  | recordFailure

/-- The moves of the producers and of the worker. -/
def PumpWorld.step [DecidableEq κ] (w : PumpWorld κ ε) : PumpEvent κ ε → Option (PumpWorld κ ε)
  | .call request =>
      some { w with
        calls := w.calls ++ [{ request, progress := .enqueuing request, emittedBefore := 0 }] }
  | .enqueue index =>
      match w.calls[index]? with
      | some { request, progress := .enqueuing rest, emittedBefore } =>
          -- a producer that retries on a full queue still sees the failure of the worker
          if w.pump.eventPumpFailure then
            some { w with
              calls := w.calls.set index { request, progress := .returned false, emittedBefore } }
          else
            (rest.enqueue w.pump).map fun (pump, emissions, progress) =>
              { w with
                pump
                emitted := w.emitted ++ emissions.map fun emission => (index, emission)
                calls := w.calls.set index
                  { request, progress, emittedBefore := w.emitted.length } }
      | _ => none
  | .wake index =>
      match w.calls[index]? with
      | some { request, progress := .awaiting flushed, emittedBefore } =>
          if w.pump.eventPumpFailure then
            some { w with
              calls := w.calls.set index { request, progress := .returned false, emittedBefore } }
          else if w.pump.flushed flushed then
            some { w with
              calls := w.calls.set index { request, progress := .returned true, emittedBefore } }
          else none
      | _ => none
  | .dequeue =>
      match w.worker, w.pump.eventPumpQueue with
      | .reading, command :: rest =>
          let dequeued := { w with pump := { w.pump with eventPumpQueue := rest } }
          match command with
          | .deliverEvent event =>
              some { dequeued with worker := .delivering, handed := w.handed ++ [event] }
          -- read only in the next transaction, so producers can still append to it
          | .deliverCoalescedEvent pending => some { dequeued with worker := .taken pending }
          | .flushEvents flushed => some { dequeued with worker := .flushing flushed }
      | _, _ => none
  | .take =>
      match w.worker with
      | .taken pending =>
          let (event, pump) := takeCoalescedEvent w.pump pending
          some { w with pump, worker := .delivering, handed := w.handed ++ [event] }
      | _ => none
  | .acknowledge =>
      match w.worker with
      | .flushing flushed =>
          some { w with
            pump := { w.pump with flushed := Function.update w.pump.flushed flushed true }
            worker := .reading }
      | _ => none
  | .sinkReturns =>
      match w.worker with
      | .delivering => some { w with worker := .reading, delivered := w.handed }
      | _ => none
  | .sinkFails =>
      match w.worker with
      -- the failure is published by a transaction of its own
      | .delivering => some { w with worker := .failing }
      | _ => none
  | .recordFailure =>
      match w.worker with
      | .failing =>
          some { w with pump := { w.pump with eventPumpFailure := true }, worker := .stopped }
      | _ => none

/-! ### What the pump is for -/

/-- The emissions one event may stand for: an event alone, adjacent texts of one key concatenated,
or the last of adjacent snapshots of one key.  A merged event is built the way its first emission
asked for. -/
inductive Coalesces : List (Emission κ ε) → ε → Prop
  | event (e : ε) : Coalesces [.event e] e
  | appended (key : κ) (build : Text → ε) (text : Text) (more : List ((Text → ε) × Text)) :
      Coalesces (.appended key build text :: more.map fun m => .appended key m.1 m.2)
        (build (text ++ (more.map Prod.snd).flatten))
  | latest (key : κ) (build : Text → ε) (text : Text) (more : List ((Text → ε) × Text)) :
      Coalesces (.latest key build text :: more.map fun m => .latest key m.1 m.2)
        (build ((more.map Prod.snd).getLastD text))

/-- The node the worker has dequeued and not yet read. -/
def PumpWorker.inHand : PumpWorker κ ε → List (EventPumpCommand κ ε)
  | .taken pending => [.deliverCoalescedEvent pending]
  | .flushing flushed => [.flushEvents flushed]
  | _ => []

/-- The nodes not yet handed to the sink. -/
def PumpWorld.pending (w : PumpWorld κ ε) : List (EventPumpCommand κ ε) :=
  w.worker.inHand ++ w.pump.eventPumpQueue

/-- The event a node would deliver now. -/
def EventPump.pendingEvent (pump : EventPump κ ε) : EventPumpCommand κ ε → Option ε
  | .deliverEvent event => some event
  | .deliverCoalescedEvent pending => some (materializeCoalescedEvent pump pending)
  | .flushEvents _ => none

/-- The emissions of one call. -/
def PumpWorld.emittedBy (w : PumpWorld κ ε) (index : ℕ) : List (Emission κ ε) :=
  (w.emitted.filter (fun e => e.1 == index)).map Prod.snd

end HaskellAgent
