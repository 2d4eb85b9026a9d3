import HaskellAgent.Lib.KeyedList
import HaskellAgent.Subagents.Types

/-!
# The transactions of the subagent registry

Every child agent has a record, a bundle of transactional variables.  `SubagentRecord` is the part
of it that is fixed at its creation, with a number that tells two records of the same agent apart;
the contents of its variables are maps from records, kept in `Registry` beside the variables of the
registry itself.  A transaction is a function on `Registry`; one that can retry returns an `Option`,
one that can be refused an `Except`.

Two fields are history: whether the clamp of `releaseSlot` ever took effect, and the live count and
limit at every admission.
-/

namespace HaskellAgent

/-! ### Records -/

/-- A record, by the part of it that never changes. -/
structure SubagentRecord where
  recordRef : ℕ
  recordId : SubagentId
  recordParent : Option SubagentId
  recordDepth : ℤ
  recordTaskPath : TaskPath
  deriving DecidableEq, Repr

/-- Mail of the registry carries no tags. -/
abbrev Work := SubagentWork Unit

/-- The turn lifecycle of an open subagent. -/
inductive SubagentPhase
  | idle (status : SubagentStatus) (turn : Option RootTurnId)
  | pending (work : Work)
  | running (turn : Option RootTurnId)
  | interrupting (turn : Option RootTurnId)
  | closed
  deriving DecidableEq

def phaseStatus : SubagentPhase → SubagentStatus
  | .idle status _ => status
  | .pending _ => .pending
  | .running _ => .running
  | .interrupting _ => .interrupted
  | .closed => .closed

def phaseRootTurnId : SubagentPhase → Option RootTurnId
  | .pending work => work.workRootTurnId
  | .running turn => turn
  | .interrupting turn => turn
  | .idle _ turn => turn
  | .closed => none

/-- Pending, running and interrupting agents own an active-turn slot. -/
def phaseHoldsSlot : SubagentPhase → Bool
  | .pending _ => true
  | .running _ => true
  | .interrupting _ => true
  | .idle _ _ => false
  | .closed => false

/-! ### The registry -/

/-- The contents of all transactional variables. -/
structure Registry where
  recordPhase : SubagentRecord → SubagentPhase
  recordCancel : SubagentRecord → Bool
  recordMail : SubagentRecord → Mail Unit
  /-- The number of the supervisor thread. -/
  recordAsync : SubagentRecord → Option ℕ
  recordLastUpdate : SubagentRecord → Option (ℕ × SubagentStatus)
  /-- The number of the next record to be created. -/
  nextRef : ℕ
  registryAgents : List SubagentRecord
  registryPaths : TaskPath → Option SubagentId
  registryLiveCount : ℤ
  registryRootTurnSpawnCounts : RootTurnId → ℤ
  registryNextUpdateSeq : ℕ
  registryWaitCursors : Option SubagentId → ℕ
  registryActiveWaits : Option SubagentId → Option (List SubagentId)
  registryConfig : SubagentConfig
  registryClosed : Bool
  registryNextRootTurnId : ℕ
  registryAbortedRootTurns : List RootTurnId
  registrySuspensions : SubagentId → Option (UTCTime × Text)
  /-- `max 0` of `releaseSlot` changed a count. -/
  clamped : Bool
  /-- The live count before, and the limit, at every admission that took a slot. -/
  admissions : List (ℤ × ℤ)

namespace Registry

/-- `newSubagentRegistry`. -/
def new (config : SubagentConfig) : Registry where
  recordPhase := fun _ => .closed
  recordCancel := fun _ => false
  recordMail := fun _ => { recordMailbox := [], recordSteering := none }
  recordAsync := fun _ => none
  recordLastUpdate := fun _ => none
  nextRef := 0
  registryAgents := []
  registryPaths := fun _ => none
  registryLiveCount := 0
  registryRootTurnSpawnCounts := fun _ => 0
  registryNextUpdateSeq := 0
  registryWaitCursors := fun _ => 0
  registryActiveWaits := fun _ => none
  registryConfig :=
    { config with
      maxConcurrent := max 1 config.maxConcurrent
      maxSpawnedPerTurn := config.maxSpawnedPerTurn.map (max 1) }
  registryClosed := false
  registryNextRootTurnId := 0
  registryAbortedRootTurns := []
  registrySuspensions := fun _ => none
  clamped := false
  admissions := []

variable (reg : Registry)

def lookup (agentId : SubagentId) : Option SubagentRecord :=
  KeyedList.lookup (·.recordId) agentId reg.registryAgents

def status (record : SubagentRecord) : SubagentStatus := phaseStatus (reg.recordPhase record)

def setPhase (record : SubagentRecord) (phase : SubagentPhase) : Registry :=
  { reg with recordPhase := Function.update reg.recordPhase record phase }

def setMail (record : SubagentRecord) (mail : Mail Unit) : Registry :=
  { reg with recordMail := Function.update reg.recordMail record mail }

def setMailbox (record : SubagentRecord) (mailbox : List Work) : Registry :=
  reg.setMail record { reg.recordMail record with recordMailbox := mailbox }

def requestCancel (record : SubagentRecord) : Registry :=
  { reg with recordCancel := Function.update reg.recordCancel record true }

def resetCancel (record : SubagentRecord) : Registry :=
  { reg with recordCancel := Function.update reg.recordCancel record false }

def deleteSuspension (agentId : SubagentId) : Registry :=
  { reg with registrySuspensions := Function.update reg.registrySuspensions agentId none }

def isRootTurnAborted : Option RootTurnId → Bool
  | none => false
  | some turn => turn ∈ reg.registryAbortedRootTurns

/-- `enqueueSubagentWorkSTM`. -/
def enqueueWork (record : SubagentRecord) (work : Work) : Registry :=
  reg.setMail record ((reg.recordMail record).enqueueSubagentWork work)

/-! ### Slots -/

/-- `releaseSlotSTM`. -/
def releaseSlot (record : SubagentRecord) : Registry :=
  { reg with
    registryLiveCount :=
      if phaseHoldsSlot (reg.recordPhase record) then max 0 (reg.registryLiveCount - 1)
      else reg.registryLiveCount
    -- history only: the source keeps no trace of the clamp
    clamped :=
      reg.clamped ||
        (phaseHoldsSlot (reg.recordPhase record) && decide (reg.registryLiveCount - 1 < 0)) }

/-- Count one more slot. -/
def takeSlot : Registry :=
  { reg with
    registryLiveCount := reg.registryLiveCount + 1
    admissions := (reg.registryLiveCount, reg.registryConfig.maxConcurrent) :: reg.admissions }

/-- `transitionToIdleSTM`. -/
def transitionToIdle (record : SubagentRecord) (status : SubagentStatus) : Registry :=
  ((reg.releaseSlot record).setPhase record (.idle status none)).deleteSuspension record.recordId

/-! ### Admission -/

/-- The arguments of `spawnSubagentAtWithIdPreparedForTurn`. -/
structure SpawnRequest where
  rootTurnId : Option RootTurnId
  agentId : SubagentId
  parentId : Option SubagentId
  requestedParentPath : TaskPath
  requestedParentDepth : ℤ
  taskName : Text
  content : InterAgentMessageContent
  metadata : InterAgentMessageMetadata

/-- `resolveParentSTM`. -/
def resolveParent : Option SubagentId → TaskPath → ℤ → Except CoordinationError (TaskPath × ℤ)
  | none, requestedPath, requestedDepth =>
      if requestedPath = taskPathRoot ∧ requestedDepth = 0 then .ok (taskPathRoot, 1)
      else .error .invalidParentContext
  | some parentId, _, _ =>
      match reg.lookup parentId with
      | none => .error (.parentUnavailable parentId)
      | some parent =>
          if reg.status parent = .closed ∨ reg.status parent = .notFound then
            .error (.parentUnavailable parentId)
          else .ok (parent.recordTaskPath, parent.recordDepth + 1)

/-- The spawn budget of a root turn, if it is used up. -/
def budgetExceeded (turn : Option RootTurnId) : Option ℤ :=
  match turn, reg.registryConfig.maxSpawnedPerTurn with
  | some turn, some limit =>
      if reg.registryRootTurnSpawnCounts turn ≥ limit then some limit else none
  -- a spawn outside any root turn has no budget
  | _, _ => none

def depthExceeded (depth : ℤ) : Option ℤ :=
  match reg.registryConfig.maxDepth with
  | some limit => if depth > limit then some limit else none
  | none => none

/-- A new record, its variables at their initial values. -/
def allocate (record : SubagentRecord) (phase : SubagentPhase) : Registry :=
  { reg with
    recordPhase := Function.update reg.recordPhase record phase
    recordCancel := Function.update reg.recordCancel record false
    recordMail :=
      Function.update reg.recordMail record { recordMailbox := [], recordSteering := none }
    recordAsync := Function.update reg.recordAsync record none
    recordLastUpdate := Function.update reg.recordLastUpdate record none
    nextRef := reg.nextRef + 1 }

/-- Enter a record under its id. -/
def insertAgent (record : SubagentRecord) : Registry :=
  { reg with registryAgents := KeyedList.insert (·.recordId) record reg.registryAgents }

def insertPath (path : TaskPath) (agentId : SubagentId) : Registry :=
  { reg with registryPaths := Function.update reg.registryPaths path (some agentId) }

/-- One more agent owned by a root turn. -/
def countSpawn (turn : Option RootTurnId) : Registry :=
  { reg with
    registryRootTurnSpawnCounts :=
      turn.elim reg.registryRootTurnSpawnCounts fun turn =>
        Function.update reg.registryRootTurnSpawnCounts turn
          (reg.registryRootTurnSpawnCounts turn + 1) }

/-- The first work of a new agent. -/
def SpawnRequest.work (request : SpawnRequest) (parentPath childPath : TaskPath) : Work where
  workRootTurnId := request.rootTurnId
  workMessage :=
    { messageAuthor := parentPath
      messageRecipient := childPath
      messageType := .newTask
      messageContent := request.content
      messageMetadata := some request.metadata }
  workTag := ()

/-- The admission transaction of `spawnSubagentAtWithIdPreparedForTurn`. -/
def admitSubagent (request : SpawnRequest) : Except CoordinationError (SubagentRecord × Registry) :=
  if reg.registryClosed then .error (.admissionRejected .registryClosed)
  else if reg.isRootTurnAborted request.rootTurnId then .error (.admissionRejected .turnAborted)
  else
    match reg.resolveParent request.parentId request.requestedParentPath
        request.requestedParentDepth with
    | .error err => .error err
    | .ok (parentPath, nextDepth) =>
        match reg.budgetExceeded request.rootTurnId, reg.depthExceeded nextDepth with
        | some limit, _ => .error (.turnBudgetExceeded limit)
        | none, some limit => .error (.depthLimitExceeded limit)
        | none, none =>
            match joinTaskPath parentPath request.taskName with
            | .error err => .error (.invalidTaskName err)
            | .ok childPath =>
                if (reg.registryPaths childPath).isSome then .error (.taskPathOccupied childPath)
                else if reg.registryLiveCount ≥ reg.registryConfig.maxConcurrent then
                  .error (.admissionRejected
                    (.capacityExceeded reg.registryConfig.maxConcurrent))
                else
                  let record : SubagentRecord :=
                    { recordRef := reg.nextRef
                      recordId := request.agentId
                      recordParent := request.parentId
                      recordDepth := nextDepth
                      recordTaskPath := childPath }
                  .ok (record,
                    ((((reg.allocate record (.pending (request.work parentPath childPath))).takeSlot
                      ).countSpawn request.rootTurnId).insertAgent record).insertPath childPath
                        request.agentId)

/-- `deleteOwnedPath`. -/
def deleteOwnedPath (path : TaskPath) (expected : SubagentId) : Registry :=
  { reg with
    registryPaths :=
      if reg.registryPaths path = some expected then Function.update reg.registryPaths path none
      else reg.registryPaths }

/-- The transaction of `rollbackAdmission`. -/
def rollbackAdmission (record : SubagentRecord) : Registry :=
  -- the release reads the phase, so it comes before the record is closed
  let deleted :=
    { reg with
      registryAgents := KeyedList.delete (·.recordId) record.recordId reg.registryAgents }
  ((deleted.deleteOwnedPath record.recordTaskPath record.recordId).releaseSlot record).setPhase
    record .closed

/-- The check of `startRecordSupervisor`. -/
def startupRejection (record : SubagentRecord) : Option StartupRejection :=
  if reg.registryClosed then some .registryClosed
  else if reg.isRootTurnAborted (phaseRootTurnId (reg.recordPhase record)) then some .turnAborted
  else if reg.status record = .closed then some .agentClosed
  else if (reg.lookup record.recordId).isNone then some .agentMissing
  else if (reg.registryPaths record.recordTaskPath).any (· ≠ record.recordId) then
    some .pathOccupied
  else if (reg.recordAsync record).isSome then some .supervisorPresent
  else none

/-! ### The supervisor -/

/-- `takeStartedWork`; `none` where it retries. -/
def takeStartedWork (record : SubagentRecord) : Option (Option Work × Registry) :=
  match reg.recordPhase record with
  | .closed => some (none, reg)
  | .pending work => some (some work, reg.setPhase record (.running work.workRootTurnId))
  | .idle _ _ => none
  | .running _ => none
  | .interrupting _ => none

inductive SupervisorStep
  | stop
  | idle
  | complete
  | message (work : Work)

/-- `supervisorStep`; `none` where it retries. -/
def supervisorStep (record : SubagentRecord) (onIdle : SupervisorStep × Registry) :
    Option (SupervisorStep × Registry) :=
  match reg.recordPhase record with
  -- a closed record holds no slot, so nothing is counted down here
  | .closed => some (.stop, reg.releaseSlot record)
  | .interrupting _ => some (.idle, reg.transitionToIdle record .interrupted)
  | .running _ =>
      match (reg.recordMail record).recordMailbox with
      | [] => some onIdle
      | work :: rest =>
          some (.message work,
            (reg.setMailbox record rest).setPhase record (.running work.workRootTurnId))
  -- `takeStartedWork` is still to come for this work
  | .pending _ => none
  | .idle _ _ => some (.idle, reg)

def nextSupervisorStep (record : SubagentRecord) : Option (SupervisorStep × Registry) :=
  reg.supervisorStep record (.complete, reg)

def supervisorStepWithoutMailbox (record : SubagentRecord) : Option (SupervisorStep × Registry) :=
  match reg.recordPhase record with
  | .running _ => some (.complete, reg)
  | _ => reg.supervisorStep record (.complete, reg)

def finishSupervisorStep (record : SubagentRecord) (status : SubagentStatus) :
    Option (SupervisorStep × Registry) :=
  if isSuspended status then
    match reg.recordPhase record with
    | .running _ => some (.idle, reg.transitionToIdle record status)
    | _ => reg.supervisorStep record (.idle, reg)
  else reg.supervisorStep record (.idle, reg.transitionToIdle record status)

/-! ### Completions -/

/-- `publishDirectUpdateSTM`: record a status under the next sequence number. -/
def publishDirectUpdate (record : SubagentRecord) (status : SubagentStatus) : Registry :=
  { reg with
    registryNextUpdateSeq := reg.registryNextUpdateSeq + 1
    recordLastUpdate :=
      Function.update reg.recordLastUpdate record (some (reg.registryNextUpdateSeq + 1, status)) }

/-- `completionIsAwaitedSTM`. -/
def completionIsAwaited (caller : Option SubagentId) (childId : SubagentId) : Bool :=
  match reg.registryActiveWaits caller with
  | none => false
  | some [] => true
  | some targets => childId ∈ targets

/-- The parent of the record is registered, and runs or is about to. -/
def parentActive (record : SubagentRecord) : Bool :=
  (record.recordParent.bind reg.lookup).any fun parent =>
    reg.status parent = .running ∨ reg.status parent = .pending

/-- A completion of the record is left to a wait of its parent, which is active. -/
def leftToWait (record : SubagentRecord) : Bool :=
  record.recordParent.isSome && reg.completionIsAwaited record.recordParent record.recordId &&
    reg.parentActive record

def completionMessage (child parent : SubagentRecord) (status : SubagentStatus)
    (metadata : Option InterAgentMessageMetadata) : InterAgentMessage where
  messageAuthor := child.recordTaskPath
  messageRecipient := parent.recordTaskPath
  messageType := .queued
  messageContent := .plain (formatCompletionNotice child.recordId status)
  messageMetadata := metadata

/-- `routeCompletionSTM`: the parent's mail, unless it waits for the child or is not active.  The
answer says whether the root is to be notified. -/
def routeCompletion (record : SubagentRecord) (status : SubagentStatus)
    (metadata : Option InterAgentMessageMetadata) : Bool × Registry :=
  match record.recordParent with
  | none => (true, reg)
  | some parentId =>
      if reg.completionIsAwaited (some parentId) record.recordId then (false, reg)
      else
        match reg.lookup parentId with
        | none => (true, reg)
        | some parent =>
            if reg.status parent = .running ∨ reg.status parent = .pending then
              (false, reg.enqueueWork parent
                { workRootTurnId := phaseRootTurnId (reg.recordPhase record)
                  workMessage := completionMessage record parent status metadata
                  workTag := () })
            else (true, reg)

/-- `publishCompletionSTM`. -/
def publishCompletion (record : SubagentRecord) (status : SubagentStatus)
    (metadata : Option InterAgentMessageMetadata) : Bool × Registry :=
  (reg.publishDirectUpdate record status).routeCompletion record status metadata

/-! ### Scheduling -/

/-- `scheduleIdleWork`. -/
def scheduleIdleWork (record : SubagentRecord) (work : Work) : Except CoordinationError Registry :=
  if reg.registryClosed then .error (.admissionRejected .registryClosed)
  else
    match reg.recordPhase record with
    | .idle _ _ =>
        if reg.registryLiveCount ≥ reg.registryConfig.maxConcurrent then
          .error (.admissionRejected (.capacityExceeded reg.registryConfig.maxConcurrent))
        else .ok (reg.takeSlot.setPhase record (.pending work))
    | .closed => .error (.agentClosed record.recordId)
    | .pending _ => .error (.agentBusy record.recordId .workPending)
    | .running _ => .error (.agentBusy record.recordId .workRunning)
    | .interrupting _ => .error (.agentBusy record.recordId .workInterrupting)

/-- The `admission` check of `resumeSuspendedWork`. -/
def resumeAdmission (work : Work) : Except CoordinationError Unit :=
  if reg.registryClosed then .error (.suspendedAdmissionRejected .registryClosed)
  else if reg.isRootTurnAborted work.workRootTurnId then
    .error (.suspendedAdmissionRejected .turnAborted)
  else if reg.registryLiveCount ≥ reg.registryConfig.maxConcurrent then
    .error (.suspendedAdmissionRejected (.capacityExceeded reg.registryConfig.maxConcurrent))
  else .ok ()

/-- The transaction of `queueMessageFromForTurnWithOrigin`. -/
def queueMessage (turn : Option RootTurnId) (senderPath : TaskPath) (agentId : SubagentId)
    (content : InterAgentMessageContent) (metadata : InterAgentMessageMetadata) :
    Except CoordinationError Registry :=
  if reg.registryClosed then .error (.admissionRejected .registryClosed)
  else if reg.isRootTurnAborted turn then .error (.admissionRejected .turnAborted)
  else
    match reg.lookup agentId with
    | none => .error (.unknownAgent agentId)
    | some record =>
        if reg.status record = .closed then .error (.agentClosed agentId)
        else .ok (reg.enqueueWork record
          { workRootTurnId := turn
            workMessage :=
              { messageAuthor := senderPath
                messageRecipient := record.recordTaskPath
                messageType := .queued
                messageContent := content
                messageMetadata := some metadata }
            workTag := () })

/-! ### Interruption -/

/-- `cancelSuspension`, where the storage accepts the cancellation. -/
def cancelSuspension (record : SubagentRecord) : Registry :=
  { reg with
    registrySuspensions :=
      if (reg.registrySuspensions record.recordId).isSome ∨ isSuspended (reg.status record) then
        Function.update reg.registrySuspensions record.recordId none
      else reg.registrySuspensions }

/-- The first transaction of `abortRootTurn` on one mailbox: `discardQueuedWork`. -/
def discardQueuedWork (turn : RootTurnId) (mail : Mail Unit) : Mail Unit :=
  { mail with
    recordMailbox := mail.recordMailbox.filter fun work => work.workRootTurnId ≠ some turn }

/-- The records `abortRootTurn` selects. -/
def ownedRecords (turn : RootTurnId) : List SubagentRecord :=
  reg.registryAgents.filter fun record =>
    phaseRootTurnId (reg.recordPhase record) = some turn ∧
      (reg.status record = .pending ∨ reg.status record = .running)

/-- The first transaction of `abortRootTurn`. -/
def markAborted (turn : RootTurnId) : Registry :=
  { reg with
    registryAbortedRootTurns := turn :: reg.registryAbortedRootTurns
    recordMail := fun record =>
      if record ∈ reg.registryAgents then discardQueuedWork turn (reg.recordMail record)
      else reg.recordMail record }

inductive InterruptDisposition
  | unchanged
  | settled
  | wait
  deriving DecidableEq, Repr

/-- The transaction of `interruptRecordForTurn`. -/
def interruptRecordForTurn (turn : RootTurnId) (record : SubagentRecord) :
    InterruptDisposition × Registry :=
  if phaseRootTurnId (reg.recordPhase record) ≠ some turn then (.unchanged, reg)
  else
    match reg.recordPhase record with
    | .pending _ =>
        (.settled, (reg.releaseSlot record).setPhase record (.idle .interrupted (some turn)))
    | .running owner => (.wait, reg.setPhase record (.interrupting owner))
    | .interrupting _ => (.wait, reg)
    | .idle _ _ => (.unchanged, reg)
    | .closed => (.unchanged, reg)

/-- The records `interruptActiveSubagents` selects. -/
def activeRecords : List SubagentRecord :=
  reg.registryAgents.filter fun record =>
    reg.status record = .pending ∨ reg.status record = .running

/-- The transaction of `interruptRecord`. -/
def interruptRecord (record : SubagentRecord) : InterruptDisposition × Registry :=
  let flushed := reg.setMailbox record []
  match reg.recordPhase record with
  | .pending _ => (.settled, flushed.transitionToIdle record .interrupted)
  | .running owner => (.wait, flushed.setPhase record (.interrupting owner))
  | .interrupting _ => (.wait, flushed)
  | .idle _ _ => (.unchanged, flushed)
  | .closed => (.unchanged, flushed)

/-- The settling transaction of `interruptSubagent`; the answer says whether it settled the record
itself, so that no cancellation is requested.  Pending work is replaced by the oldest queued one. -/
def interruptPending (record : SubagentRecord) : Bool × Registry :=
  match reg.recordPhase record with
  | .idle (.suspended _ _) _ =>
      (true,
        (reg.setPhase record (.idle .interrupted none)).publishDirectUpdate record .interrupted)
  | .pending work =>
      -- the slot is released and, for a replacement, counted again without an admission check
      let released := reg.releaseSlot record
      match (reg.recordMail record).recordMailbox with
      | nextWork :: rest =>
          (true, ((({ released with registryLiveCount := released.registryLiveCount + 1 } :
            Registry).setMailbox record rest).setPhase record (.pending nextWork)
              ).publishDirectUpdate record .interrupted)
      | [] =>
          (true, (released.setPhase record (.idle .interrupted work.workRootTurnId)
            ).publishDirectUpdate record .interrupted)
  | _ => (false, reg)

/-! ### Shutdown and restoration -/

/-- The transaction of `shutdownRecord`. -/
def closeRecord (record : SubagentRecord) : Registry :=
  ((reg.releaseSlot record).setPhase record .closed).setMailbox record []

/-- The closing transaction of `resetSubagentRegistry`. -/
def clear : Registry :=
  { reg with
    registryAgents := []
    registrySuspensions := fun _ => none
    registryPaths := fun _ => none
    registryLiveCount := 0
    registryRootTurnSpawnCounts := fun _ => 0
    registryNextUpdateSeq := 0
    registryWaitCursors := fun _ => 0
    registryActiveWaits := fun _ => none
    registryAbortedRootTurns := []
    registryClosed := false }

/-- `descendants`, to a bounded depth; `none` where the bound does not suffice, which is where the
parents form a cycle and the source does not return. -/
def descendants (agents : List SubagentRecord) : ℕ → SubagentId → Option (List SubagentRecord)
  | 0, _ => none
  | fuel + 1, parentId => do
      let kids := agents.filter fun record => record.recordParent = some parentId
      let parts ← kids.mapM fun kid => do
        let below ← descendants agents fuel kid.recordId
        return below ++ [kid]
      return parts.flatten

/-- Where `restoreSubagentResolvedWithCwd` takes the path and depth from: the parent's, for
`restoreSubagentWithCwd`, or its arguments. -/
inductive RestoredIdentity
  | named (depth : ℤ)
  | located (path : TaskPath) (depth : ℤ)

/-- The arguments of `restoreSubagentResolvedWithCwd`. -/
structure RestoreRequest where
  agentId : SubagentId
  parentId : Option SubagentId
  identity : RestoredIdentity
  restoredStatus : SubagentStatus

def RestoreRequest.normalizedStatus (request : RestoreRequest) : SubagentStatus :=
  match request.restoredStatus with
  | .pending => .interrupted
  | .running => .interrupted
  | .notFound => .interrupted
  | status => status

def RestoreRequest.normalizedPhase (request : RestoreRequest) : SubagentPhase :=
  match request.normalizedStatus with
  | .closed => .closed
  | status => .idle status none

def taskNameForAgentId (agentId : SubagentId) : Text := 'a' :: agentId.filter (· ≠ '-')

inductive RestoreError
  | registryClosed
  | coordination (error : CoordinationError)
  | invalidPath (detail : Text)
  | pathInUse (path : TaskPath)

def resolveIdentity (request : RestoreRequest) : Except RestoreError (TaskPath × ℤ) :=
  match request.identity with
  | .located path depth => .ok (path, depth)
  | .named depth =>
      match reg.resolveParent request.parentId taskPathRoot (max 0 (depth - 1)) with
      | .error err => .error (.coordination err)
      | .ok (parentPath, actualDepth) =>
          match joinTaskPath parentPath (taskNameForAgentId request.agentId) with
          | .error err => .error (.invalidPath err)
          | .ok childPath => .ok (childPath, actualDepth)

/-- The transaction of `restoreMissing`. -/
def restoreMissing (request : RestoreRequest) : Except RestoreError (SubagentRecord × Registry) :=
  if reg.registryClosed then .error .registryClosed
  else
    match reg.resolveIdentity request with
    | .error err => .error err
    | .ok (resolvedPath, resolvedDepth) =>
        if (reg.registryPaths resolvedPath).any (· ≠ request.agentId) then
          .error (.pathInUse resolvedPath)
        else
          let record : SubagentRecord :=
            { recordRef := reg.nextRef
              recordId := request.agentId
              recordParent := request.parentId
              recordDepth := resolvedDepth
              recordTaskPath := resolvedPath }
          -- unlike an admission, no slot is taken: a restored record is idle or closed
          let inserted := (reg.allocate record request.normalizedPhase).insertAgent record
          .ok (record,
            if resolvedPath ≠ taskPathRoot then inserted.insertPath resolvedPath request.agentId
            else inserted)

/-- The first transaction of `restoreExisting` after its check. -/
def rewriteRecord (record : SubagentRecord) (phase : SubagentPhase) : Registry :=
  ((reg.releaseSlot record).setPhase record phase).insertPath record.recordTaskPath record.recordId

/-! ### Waits -/

/-- `Map.fromList`: the last of equal keys wins. -/
def statusMap (pairs : List (SubagentId × SubagentStatus)) : SubagentId → Option SubagentStatus :=
  fun agentId => pairs.reverse.lookup agentId

/-- `readStatusSTM`. -/
def readStatus (agentId : SubagentId) : SubagentStatus :=
  match reg.lookup agentId with
  | none => .notFound
  | some record => reg.status record

/-- The targets of `waitSubagentsFrom` with their statuses. -/
def targetStatuses (targets : List SubagentId) : List (SubagentId × SubagentStatus) :=
  targets.map fun agentId => (agentId, reg.readStatus agentId)

/-- `recordUpdateAfter`. -/
def recordUpdateAfter (caller : Option SubagentId) (cursor : ℕ) (record : SubagentRecord) :
    Option (SubagentId × ℕ × SubagentStatus) :=
  if caller = some record.recordId then none
  else
    match reg.recordLastUpdate record with
    | some (seqNo, status) => if seqNo > cursor then some (record.recordId, seqNo, status) else none
    | none => none

/-- The updates a caller has not seen. -/
def unseenUpdates (caller : Option SubagentId) : List (SubagentId × ℕ × SubagentStatus) :=
  reg.registryAgents.filterMap (reg.recordUpdateAfter caller (reg.registryWaitCursors caller))

/-- `takeAgentUpdatesSTM`; `none` where it retries. -/
def takeAgentUpdates (caller : Option SubagentId) :
    Option ((SubagentId → Option SubagentStatus) × Registry) :=
  match reg.unseenUpdates caller with
  | [] => none
  | updates =>
      let latest := (updates.map (·.2.1)).foldr max 0
      some (statusMap (updates.map fun update => (update.1, update.2.2)),
        { reg with
          registryWaitCursors := Function.update reg.registryWaitCursors caller latest })

/-- `pendingMessagesSTM`: mail waits for the caller.  `rootReady` stands for the host's own
`registryRootMessageWaiter`. -/
def pendingMessages (rootReady : Bool) : Option SubagentId → Bool
  | none => rootReady
  | some agentId =>
      match reg.lookup agentId with
      | none => false
      | some record =>
          !(reg.recordMail record).recordMailbox.isEmpty ||
            (reg.recordMail record).recordSteering.any fun steering =>
              awaitUserSteeringAfter steering.steeringInputs 0

def setActiveWait (caller : Option SubagentId) (targets : Option (List SubagentId)) : Registry :=
  { reg with registryActiveWaits := Function.update reg.registryActiveWaits caller targets }

end Registry

end HaskellAgent
