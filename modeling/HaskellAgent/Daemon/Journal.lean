import HaskellAgent.Daemon.Task
import HaskellAgent.Lib.CutPrograms
import HaskellAgent.Lib.Utf8

/-!
# The journal of the daemon

Every change of a task is an event with a number of its own.  The journal appends it to the file of
events, replaces the file of the snapshot, and where the events have become too many or too large
replaces that file too.  Subscribers get the events that are kept and those that follow.

What a call does to the files is a program whose operations may fail or be cut off.  The calls of
one journal are made one after the other.

## Main definitions

* `JournalConfig`, `EventEnvelope`, `JournalSnapshot`, `Journal` — the data.
* `Disk`, `FileOperation`, `fileSystem` — the two files.
* `appendEvent`, `persistTask`, `openJournal` — the calls that write.
* `replayFromState`, `subscribeReplay`, `publish` — subscribers.
-/

namespace HaskellAgent.Daemon

open HaskellAgent.Wire

abbrev Bytes := List UInt8

/-! ### Data -/

structure JournalConfig where
  directory : Text
  maximumEvents : ℤ
  maximumJournalBytes : ℤ
  maximumTaskLogLines : ℤ
  maximumTaskLogCharacters : ℤ
  maximumTaskDescriptionCharacters : ℤ
  maximumTasks : ℤ
  subscriberQueueSize : ℤ
  maximumSnapshotBytes : ℤ
  maximumRecoveryJournalBytes : ℤ
deriving DecidableEq

/-- The exceptions of the journal, and that of a file operation. -/
inductive JournalError
  | corrupt (path message : Text)
  | eventGap (expected actual : ℕ)
  | eventTooLarge (actual : ℕ) (maximum : ℤ)
  | taskCapacityExceeded (maximum : ℤ)
  | fileTooLarge (path : Text) (actual : ℕ) (maximum : ℤ)
  | poisoned (message : Text)
  | insecurePath (path : Text)
  | sequenceExhausted (last : ℕ)
  | ioException (message : Text)
deriving DecidableEq

structure EventEnvelope where
  sequenceNumber : ℕ
  eventType : Text
  payload : Json
deriving DecidableEq

structure JournalSnapshot where
  lastSequence : ℕ
  tasks : FinMap TaskId DurableTask
deriving DecidableEq

inductive Replay
  | events (events : List EventEnvelope)
  | snapshot (saved : JournalSnapshot)
deriving DecidableEq

structure JournalState where
  durableSnapshot : JournalSnapshot
  retainedEvents : List EventEnvelope
deriving DecidableEq

/-- The queue of a subscriber, and whether an event did not fit it. -/
structure Subscription where
  events : List EventEnvelope
  overflowed : Bool
deriving DecidableEq

structure Journal where
  state : JournalState
  subscribers : FinMap ℕ Subscription
  nextSubscriber : ℕ
  poisoned : Option Text
deriving DecidableEq

/-- A value of the JSON library: its numbers are in normal form, and each object has a key once. -/
structure Value where
  json : Json
  normal : json.norm = json

/-! ### Redaction -/

def isInfixOf (needle text : Text) : Bool := text.tails.any fun tail => needle.isPrefixOf tail

def sensitiveFragments : List Text :=
  ["authorization:", "api_key=", "apikey=", "password=", "token=", "secret="].map String.toList

def sensitiveKeys : List Text :=
  ["authorization", "password", "secret", "token", "api_key", "apikey"].map String.toList

def redacted : Text := "[REDACTED]".toList

section Library

variable (library : DaemonLibrary)

def redactLogLine (line : Text) : Text :=
  if sensitiveFragments.any (isInfixOf · (line.flatMap library.textToLower)) then redacted
  else line

def isSensitiveKey (key : Text) : Bool :=
  sensitiveKeys.any (isInfixOf · (key.map library.toLower))

mutual

def redactValue : Json → Json
  | .object members => .object (redactMembers members)
  | .array elements => .array (redactElements elements)
  | other => other

def redactElements : List Json → List Json
  | [] => []
  | v :: vs => redactValue v :: redactElements vs

def redactMembers : List (Text × Json) → List (Text × Json)
  | [] => []
  | (key, v) :: members =>
    (key, if isSensitiveKey library key then .string redacted else redactValue v) ::
      redactMembers members

end

def takeLast {α : Type} (count : ℤ) (values : List α) : List α :=
  values.drop (values.length - count.toNat)

/-- Lines up to a number of characters, of which `used` are taken already. -/
def boundCharactersFrom (limit : ℕ) : ℕ → List Text → List Text
  | _, [] => []
  | used, line :: rest =>
    if limit ≤ used then []
    else line.take (limit - used) ::
      boundCharactersFrom limit (used + (line.take (limit - used)).length) rest

/-- The last lines up to a number of characters. -/
def boundCharacters (limit : ℤ) (lines : List Text) : List Text :=
  (boundCharactersFrom limit.toNat 0 lines.reverse).reverse

variable (config : JournalConfig)

def boundTaskLog (task : DurableTask) : DurableTask :=
  { task with
    description :=
      (redactLogLine library task.description).take config.maximumTaskDescriptionCharacters.toNat
    logTail :=
      boundCharacters config.maximumTaskLogCharacters
        (takeLast config.maximumTaskLogLines (task.logTail.map (redactLogLine library))) }

/-! ### JSON -/

def EventEnvelope.toJson (event : EventEnvelope) : Json :=
  objectWith
    [field "sequenceNumber" (integer event.sequenceNumber),
      field "eventType" (.string event.eventType),
      field "payload" event.payload]

def JournalSnapshot.toJson (saved : JournalSnapshot) : Json :=
  objectWith
    [field "lastSequence" (integer saved.lastSequence),
      field "tasks" (.object (saved.tasks.toList.map fun entry => (entry.1, entry.2.toJson)))]

def sequenceDecoder : Decoder ℕ := fun v =>
  (integerDecoder v).bind fun n => if 0 ≤ n ∧ n < 2 ^ 64 then some n.toNat else none

def eventDecoder : Decoder EventEnvelope :=
  Hermes.object fun members => do
    let sequenceNumber ← Hermes.atKey "sequenceNumber" sequenceDecoder members
    let eventType ← Hermes.atKey "eventType" Hermes.text members
    let payload ← Hermes.atKey "payload" some members
    pure { sequenceNumber, eventType, payload }

def snapshotDecoder : Decoder JournalSnapshot :=
  Hermes.object fun members => do
    let lastSequence ← Hermes.atKey "lastSequence" sequenceDecoder members
    let tasks ← Hermes.atKey "tasks" (Hermes.objectAsKeyValues (durableTaskDecoder library)) members
    pure { lastSequence, tasks := FinMap.ofList tasks }

def encode (v : Json) : Bytes := Utf8.encode (library.toJsonCodec.encode v)

def eitherDecodeStrict {α : Type} (decoder : Decoder α) (bytes : Bytes) : Except Text α :=
  match ((Utf8.decode bytes).bind library.parse).bind decoder with
  | none => .error (library.lineErrorMessage bytes)
  | some a => .ok a

def encodeLine (v : Json) : Bytes := encode library v ++ [10]

/-! ### The files -/

inductive JournalFile
  | events
  | snapshot
deriving DecidableEq

def JournalFile.name : JournalFile → Text
  | .events => "events.jsonl".toList
  | .snapshot => "snapshot.json".toList

def JournalFile.path (file : JournalFile) : Text := config.directory ++ '/' :: file.name

/-- The two files; one that does not exist is `none`. -/
structure Disk where
  events : Option Bytes
  snapshot : Option Bytes
deriving DecidableEq

def Disk.empty : Disk := ⟨none, none⟩

def Disk.get (disk : Disk) : JournalFile → Option Bytes
  | .events => disk.events
  | .snapshot => disk.snapshot

def Disk.put (disk : Disk) (bytes : Bytes) : JournalFile → Disk
  | .events => { disk with events := some bytes }
  | .snapshot => { disk with snapshot := some bytes }

/-- Read a file, take its size, append to the events, or replace a file. -/
inductive FileOperation
  | read (file : JournalFile)
  | size (file : JournalFile)
  | append (bytes : Bytes)
  | replace (file : JournalFile) (bytes : Bytes)

inductive FileReply
  | contents (bytes : Option Bytes)
  | bytes (count : ℕ)
  | written
  | failed (message : Text)

/-- An operation that writes may end after some bytes, with an exception or with the process. -/
inductive Ending
  | succeeds
  | fails (bytes : ℕ) (message : Text)
  | crashes (bytes : ℕ)
deriving DecidableEq

/-- Some bytes were appended. -/
def Disk.append (disk : Disk) (bytes : Bytes) : Disk :=
  { disk with events := some (disk.events.getD [] ++ bytes) }

/-- A file is replaced as a whole or not at all. -/
def Disk.replaceAfter (disk : Disk) (file : JournalFile) (bytes : Bytes) (count : ℕ) : Disk :=
  if count = 0 then disk else disk.put bytes file

def succeed (disk : Disk) : FileOperation → Disk × FileReply
  | .read file => (disk, .contents (disk.get file))
  | .size file => (disk, .bytes ((disk.get file).elim 0 List.length))
  | .append bytes => (disk.append bytes, .written)
  | .replace file bytes => (disk.put bytes file, .written)

/-- What an operation that stops after some bytes leaves behind. -/
def stop (disk : Disk) (count : ℕ) : FileOperation → Disk
  | .read _ => disk
  | .size _ => disk
  | .append bytes => disk.append (bytes.take count)
  | .replace file bytes => disk.replaceAfter file bytes count

def fileSystem (disk : Disk) (operation : FileOperation) : Ending → Disk × Option FileReply
  | .succeeds => ((succeed disk operation).1, some (succeed disk operation).2)
  | .fails count message => (stop disk count operation, some (.failed message))
  | .crashes count => (stop disk count operation, none)

abbrev Program := CutProgram FileOperation FileReply

/-- The size of a file that cannot be looked at is zero. -/
def fileSizeOrZero (file : JournalFile) : Program ℕ :=
  .perform (.size file) fun
    | .bytes count => .done count
    | _ => .done 0

def readPrivateFile (file : JournalFile) (maximumBytes : ℤ) :
    Program (Except JournalError (Option Bytes)) :=
  .perform (.read file) fun
    | .contents none => .done (.ok none)
    | .contents (some bytes) =>
      if maximumBytes < 0 ∨ maximumBytes < bytes.length then
        .done (.error (.fileTooLarge (file.path config) bytes.length maximumBytes))
      else .done (.ok (some bytes))
    | _ => .done (.error (.insecurePath (file.path config)))

def appendEventFile (event : EventEnvelope) : Program (Except JournalError Unit) :=
  .perform (.append (encodeLine library event.toJson)) fun
    | .failed message => .done (.error (.ioException message))
    | _ => .done (.ok ())

def atomicWrite (file : JournalFile) (bytes : Bytes) : Program (Except JournalError Unit) :=
  .perform (.replace file bytes) fun
    | .failed message => .done (.error (.ioException message))
    | _ => .done (.ok ())

/-! ### Bounds -/

def ensureHealthy (journal : Journal) : Except JournalError Unit :=
  match journal.poisoned with
  | none => .ok ()
  | some message => .error (.poisoned message)

def maximumSequence : ℕ := 2 ^ 64 - 1

def nextSequenceAfter (sequenceNumber : ℕ) : Except JournalError ℕ :=
  if sequenceNumber = maximumSequence then .error (.sequenceExhausted sequenceNumber)
  else .ok (sequenceNumber + 1)

def eventBytes (event : EventEnvelope) : ℕ := (encodeLine library event.toJson).length

def ensureEventFits (event : EventEnvelope) : Except JournalError Unit :=
  if config.maximumJournalBytes ≤ 0 ∨ config.maximumJournalBytes < eventBytes library event then
    .error (.eventTooLarge (eventBytes library event) config.maximumJournalBytes)
  else .ok ()

def enforceTaskCapacity (tasks : FinMap TaskId DurableTask) :
    Except JournalError (FinMap TaskId DurableTask) :=
  if (tasks.keys.length : ℤ) ≤ max 0 config.maximumTasks then .ok tasks
  else .error (.taskCapacityExceeded config.maximumTasks)

def snapshotBytes (saved : JournalSnapshot) : ℕ := (encode library saved.toJson).length

def ensureSnapshotFits (saved : JournalSnapshot) : Except JournalError Unit :=
  if config.maximumSnapshotBytes < 0 ∨ config.maximumSnapshotBytes < snapshotBytes library saved then
    .error (.fileTooLarge (JournalFile.snapshot.path config) (snapshotBytes library saved)
      config.maximumSnapshotBytes)
  else .ok ()

def writeSnapshot (saved : JournalSnapshot) : Program (Except JournalError Unit) :=
  match ensureSnapshotFits library config saved with
  | .error err => .done (.error err)
  | .ok () => atomicWrite .snapshot (encode library saved.toJson)

def eventLines (events : List EventEnvelope) : Bytes :=
  events.flatMap fun event => encodeLine library event.toJson

def rewriteEvents (events : List EventEnvelope) : Program (Except JournalError Unit) :=
  atomicWrite .events (eventLines library events)

/-- Events from the last one back, up to a number of bytes, of which `used` are taken already. -/
def retainFrom (maximumBytes : ℕ) : ℕ → List EventEnvelope → List EventEnvelope
  | _, [] => []
  | used, event :: rest =>
    if maximumBytes < used + eventBytes library event then []
    else event :: retainFrom maximumBytes (used + eventBytes library event) rest

def retainWithinBytes (maximumBytes : ℤ) (events : List EventEnvelope) : List EventEnvelope :=
  (retainFrom library maximumBytes.toNat 0 events.reverse).reverse

/-- The events that are kept where there are too many or too large ones. -/
def boundEvents (events : List EventEnvelope) : List EventEnvelope :=
  retainWithinBytes library config.maximumJournalBytes
    (if config.maximumEvents ≤ 0 then []
    else events.drop (events.length - config.maximumEvents.toNat))

def ensureLastFits (events : List EventEnvelope) : Except JournalError Unit :=
  match events.getLast? with
  | none => .ok ()
  | some event => ensureEventFits library config event

def enforceRetention (journalState : JournalState) : Program (Except JournalError JournalState) := do
  let journalBytes ← fileSizeOrZero .events
  match ensureLastFits library config journalState.retainedEvents with
  | .error err => pure (.error err)
  | .ok () =>
    if max 0 config.maximumEvents < journalState.retainedEvents.length ∨
        max 0 config.maximumJournalBytes < journalBytes then do
      let byteBounded := boundEvents library config journalState.retainedEvents
      match ← writeSnapshot library config journalState.durableSnapshot with
      | .error err => pure (.error err)
      | .ok () =>
        match ← rewriteEvents library byteBounded with
        | .error err => pure (.error err)
        | .ok () => pure (.ok { journalState with retainedEvents := byteBounded })
    else pure (.ok journalState)

/-! ### Subscribers -/

def subscriberCapacity : ℕ := (max 1 config.subscriberQueueSize).toNat

/-- An event that does not fit a queue is not put there later. -/
def Subscription.offer (subscription : Subscription) (event : EventEnvelope) : Subscription :=
  if subscriberCapacity config ≤ subscription.events.length then
    { subscription with overflowed := true }
  else { subscription with events := subscription.events ++ [event] }

def publish (journal : Journal) (event : EventEnvelope) : Journal :=
  { journal with subscribers := journal.subscribers.map (·.offer config event) }

def hasGapAfter (cursor earliest : ℕ) : Bool := cursor < earliest && 1 < earliest - cursor

def replayGap (cursor : ℕ) (journalState : JournalState) : Bool :=
  match journalState.retainedEvents.head? with
  | none => cursor < journalState.durableSnapshot.lastSequence
  | some event => hasGapAfter cursor event.sequenceNumber

def replayFromState (cursor : ℕ) (journalState : JournalState) : Replay :=
  if journalState.durableSnapshot.lastSequence < cursor ∨ replayGap cursor journalState = true then
    .snapshot journalState.durableSnapshot
  else .events (journalState.retainedEvents.filter fun event => cursor < event.sequenceNumber)

def snapshot (journal : Journal) : Except JournalError JournalSnapshot := do
  ensureHealthy journal
  pure journal.state.durableSnapshot

def replayAfter (journal : Journal) (cursor : ℕ) : Except JournalError Replay := do
  ensureHealthy journal
  pure (replayFromState cursor journal.state)

/-- What a new subscriber starts from, the journal that knows it, and its number. -/
def subscribeReplay (journal : Journal) (cursor : ℕ) :
    Except JournalError ((JournalSnapshot × Replay) × Journal × ℕ) := do
  ensureHealthy journal
  let subscriberId := journal.nextSubscriber
  pure ((journal.state.durableSnapshot, replayFromState cursor journal.state),
    { journal with
      subscribers := journal.subscribers.insert subscriberId ⟨[], false⟩
      nextSubscriber := subscriberId + 1 },
    subscriberId)

def unsubscribe (journal : Journal) (subscriberId : ℕ) : Journal :=
  { journal with subscribers := journal.subscribers.delete subscriberId }

/-! ### Calls -/

/-- An exception while an event is stored poisons the journal, whose state stays as it was. -/
def persistOrPoison (journal : Journal) (event : EventEnvelope)
    (action : Program (Except JournalError JournalState)) :
    Program (Journal × Except JournalError EventEnvelope) := do
  match ← action with
  | .error err =>
    pure ({ journal with poisoned := some "persistence operation failed".toList }, .error err)
  | .ok compacted => pure (publish config { journal with state := compacted } event, .ok event)

/-- The event that is appended, and the state with it. -/
def preparedEvent (journal : Journal) (eventType : Text) (payload : Json) :
    Except JournalError (EventEnvelope × JournalState) := do
  ensureHealthy journal
  let nextSequence ← nextSequenceAfter journal.state.durableSnapshot.lastSequence
  let event : EventEnvelope :=
    { sequenceNumber := nextSequence, eventType, payload := redactValue library payload }
  ensureEventFits library config event
  pure (event,
    { durableSnapshot := { journal.state.durableSnapshot with lastSequence := nextSequence }
      retainedEvents := journal.state.retainedEvents ++ [event] })

def appendEvent (journal : Journal) (eventType : Text) (payload : Json) :
    Program (Journal × Except JournalError EventEnvelope) :=
  match preparedEvent library config journal eventType payload with
  | .error err => pure (journal, .error err)
  | .ok (event, updated) =>
    persistOrPoison config journal event do
      match ← appendEventFile library event with
      | .error err => pure (.error err)
      | .ok () => enforceRetention library config updated

/-- The event of a task, and the state with it. -/
def preparedTask (journal : Journal) (task : DurableTask) :
    Except JournalError (EventEnvelope × JournalState) := do
  ensureHealthy journal
  let boundedTask := boundTaskLog library config task
  let boundedTasks ← enforceTaskCapacity config
    (journal.state.durableSnapshot.tasks.insert boundedTask.taskId boundedTask)
  let nextSequence ← nextSequenceAfter journal.state.durableSnapshot.lastSequence
  let event : EventEnvelope :=
    { sequenceNumber := nextSequence, eventType := "task_changed".toList,
      payload := boundedTask.toJson }
  let updatedSnapshot : JournalSnapshot := { lastSequence := nextSequence, tasks := boundedTasks }
  ensureEventFits library config event
  ensureSnapshotFits library config updatedSnapshot
  pure (event,
    { durableSnapshot := updatedSnapshot, retainedEvents := journal.state.retainedEvents ++ [event] })

def persistTask (journal : Journal) (task : DurableTask) :
    Program (Journal × Except JournalError EventEnvelope) :=
  match preparedTask library config journal task with
  | .error err => pure (journal, .error err)
  | .ok (event, updated) =>
    persistOrPoison config journal event do
      match ← appendEventFile library event with
      | .error err => pure (.error err)
      | .ok () =>
        match ← writeSnapshot library config updated.durableSnapshot with
        | .error err => pure (.error err)
        | .ok () => enforceRetention library config updated

/-! ### Opening -/

def emptySnapshot : JournalSnapshot := ⟨0, FinMap.empty⟩

def readSnapshot : Program (Except JournalError (Bool × JournalSnapshot)) := do
  match ← readPrivateFile config .snapshot config.maximumSnapshotBytes with
  | .error err => pure (.error err)
  | .ok none => pure (.ok (false, emptySnapshot))
  | .ok (some bytes) =>
    match eitherDecodeStrict library (snapshotDecoder library) bytes with
    | .error message => pure (.error (.corrupt (JournalFile.snapshot.path config) message))
    | .ok saved => pure (.ok (true, saved))

def decodeLine (lineNumber : ℕ) (bytes : Bytes) : Except JournalError EventEnvelope :=
  match eitherDecodeStrict library eventDecoder bytes with
  | .error message =>
    .error (.corrupt "events.jsonl".toList
      ("line ".toList ++ Nat.toDigits 10 lineNumber ++ ": ".toList ++ message))
  | .ok event => .ok event

/-- The events of lines that are numbered from one. -/
def decodeLines (lines : List Bytes) : Except JournalError (List EventEnvelope) :=
  (lines.zipIdx 1).mapM fun line => decodeLine library line.2 line.1

def readEvents : Program (Except JournalError (List EventEnvelope)) := do
  match ← readPrivateFile config .events config.maximumRecoveryJournalBytes with
  | .error err => pure (.error err)
  | .ok none => pure (.ok [])
  | .ok (some bytes) => pure (decodeLines library (Utf8.lines bytes))

def validateFrom : ℕ → List EventEnvelope → Except JournalError Unit
  | _, [] => .ok ()
  | previous, event :: remaining => do
    let expected ← nextSequenceAfter previous
    if event.sequenceNumber = expected then validateFrom event.sequenceNumber remaining
    else .error (.eventGap expected event.sequenceNumber)

def validateEventSequence : List EventEnvelope → Except JournalError Unit
  | [] => .ok ()
  | first :: rest =>
    if first.sequenceNumber = 0 then .error (.eventGap 1 0)
    else validateFrom first.sequenceNumber rest

def validateRecoveryOrigin (snapshotExists : Bool) (snapshotSequence : ℕ)
    (events : List EventEnvelope) : Except JournalError Unit :=
  match events.head?, events.getLast? with
  | some first, some lastEvent =>
    if snapshotExists = false ∧ first.sequenceNumber ≠ 1 then
      .error (.eventGap 1 first.sequenceNumber)
    else if snapshotExists = true ∧ snapshotSequence < first.sequenceNumber then do
      let expected ← nextSequenceAfter snapshotSequence
      if first.sequenceNumber = expected then .ok ()
      else .error (.eventGap expected first.sequenceNumber)
    else if snapshotExists = true ∧ lastEvent.sequenceNumber < snapshotSequence then
      .error (.corrupt "events.jsonl".toList
        "retained event suffix ends before the snapshot sequence".toList)
    else .ok ()
  | _, _ => .ok ()

/-- The task in the payload of an event. -/
def payloadTask (event : EventEnvelope) : Except JournalError DurableTask :=
  match durableTaskDecoder library event.payload with
  | none => .error (.corrupt "events.jsonl".toList (library.valueErrorMessage event.payload))
  | some task => .ok task

def normaliseRecoveredEvent (event : EventEnvelope) : Except JournalError EventEnvelope :=
  if event.eventType ≠ "task_changed".toList then
    .ok { event with payload := redactValue library event.payload }
  else do
    let task ← payloadTask library event
    pure { event with payload := (boundTaskLog library config task).toJson }

def normaliseRecoveredTasks (recoveredTasks : FinMap TaskId DurableTask) :
    Except JournalError (FinMap TaskId DurableTask) :=
  enforceTaskCapacity config (recoveredTasks.map (boundTaskLog library config))

def recoverTask (saved : JournalSnapshot) (event : EventEnvelope) :
    Except JournalError JournalSnapshot :=
  if event.sequenceNumber ≤ saved.lastSequence then .ok saved
  else if event.eventType ≠ "task_changed".toList then .ok saved
  else do
    let task ← payloadTask library event
    let boundedTask := boundTaskLog library config task
    let boundedTasks ←
      enforceTaskCapacity config (saved.tasks.insert boundedTask.taskId boundedTask)
    pure { lastSequence := event.sequenceNumber, tasks := boundedTasks }

/-- What is recovered of the files: what they should hold, and the state. -/
structure Recovery where
  normalisedSnapshot : JournalSnapshot
  normalisedEvents : List EventEnvelope
  initialState : JournalState

def recoverState (snapshotExists : Bool) (savedSnapshot : JournalSnapshot)
    (savedEvents : List EventEnvelope) : Except JournalError Recovery := do
  validateEventSequence savedEvents
  validateRecoveryOrigin snapshotExists savedSnapshot.lastSequence savedEvents
  let normalisedEvents ← savedEvents.mapM (normaliseRecoveredEvent library config)
  let savedTasks ← normaliseRecoveredTasks library config savedSnapshot.tasks
  let normalisedSnapshot : JournalSnapshot := { savedSnapshot with tasks := savedTasks }
  let recoveredSnapshot ← normalisedEvents.foldlM (recoverTask library config) normalisedSnapshot
  let recoveredTasks ← enforceTaskCapacity config recoveredSnapshot.tasks
  let lastEventSequence := (normalisedEvents.getLast?).elim 0 (·.sequenceNumber)
  normalisedEvents.forM (ensureEventFits library config)
  pure
    { normalisedSnapshot
      normalisedEvents
      initialState :=
        { durableSnapshot :=
            { lastSequence := max recoveredSnapshot.lastSequence lastEventSequence
              tasks := recoveredTasks }
          retainedEvents := normalisedEvents } }

/-- A file is only replaced where what it holds is not what it should hold. -/
def replaceUnless (asItShould : Bool) (action : Program (Except JournalError Unit)) :
    Program (Except JournalError Unit) :=
  if asItShould then .done (.ok ()) else action

/-- The tasks one after the other; the first exception ends it. -/
def persistTasks (journal : Journal) : List DurableTask → Program (Except JournalError Journal)
  | [] => .done (.ok journal)
  | task :: tasks => do
    match ← persistTask library config journal task with
    | (_, .error err) => pure (.error err)
    | (next, .ok _) => persistTasks next tasks

def interruptTasksFromPreviousProcess (now : UTCTime) (journal : Journal) :
    Program (Except JournalError Journal) :=
  persistTasks library config journal
    ((journal.state.durableSnapshot.tasks.elems.filter isActive).map (interruptActive now))

/-- The journal of a state that was recovered. -/
def newJournal (journalState : JournalState) : Journal :=
  { state := journalState, subscribers := FinMap.empty, nextSubscriber := 0, poisoned := none }

def openJournal (now : UTCTime) : Program (Except JournalError Journal) := do
  match ← readSnapshot library config with
  | .error err => pure (.error err)
  | .ok (snapshotExists, savedSnapshot) =>
    match ← readEvents library config with
    | .error err => pure (.error err)
    | .ok savedEvents =>
      match recoverState library config snapshotExists savedSnapshot savedEvents with
      | .error err => pure (.error err)
      | .ok recovery =>
        match ← replaceUnless (recovery.normalisedSnapshot.tasks = savedSnapshot.tasks)
            (writeSnapshot library config recovery.normalisedSnapshot) with
        | .error err => pure (.error err)
        | .ok () =>
          match ← replaceUnless (recovery.normalisedEvents = savedEvents)
              (rewriteEvents library recovery.normalisedEvents) with
          | .error err => pure (.error err)
          | .ok () =>
            match ← enforceRetention library config recovery.initialState with
            | .error err => pure (.error err)
            | .ok compacted =>
              interruptTasksFromPreviousProcess library config now (newJournal compacted)

end Library

end HaskellAgent.Daemon
