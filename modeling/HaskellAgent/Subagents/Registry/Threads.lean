import HaskellAgent.Subagents.Registry.Transactions

/-!
# The threads of the subagent registry

Four kinds of threads work on the registry: the supervisor of each record, the spawns, the waits,
and whoever holds the lifecycle lock.  Each is a program counter with its local data, and a move of
one of them is one transaction.  The lock is the program counter of its holder: `lifecycle` is
`none` where `registryLifecycle` is full.

What the program leaves to its environment is chosen by the events: the results of runs and their
timing, failures of preparations and of the suspension storage, and exceptions that stop a thread.
Bounded concurrent maps over records are modelled without their bound, and sequential ones in any
order, which only adds interleavings.
-/

namespace HaskellAgent

open Registry

/-! ### Supervisors -/

/-- What a run returns, errors by the texts they show. -/
inductive RunResult
  | exception (shown : Text)
  | cancelled
  | failed (shown : Text)
  | finished (finalText : Option Text)
  deriving DecidableEq, Repr

def RunResult.status : RunResult → SubagentStatus
  | .exception shown => .errored shown
  | .cancelled => .interrupted
  | .failed shown => .errored shown
  | .finished finalText => .completed finalText

/-- The status a run ends with: a suspension was requested, or its own. -/
def settledStatus : RunResult → Option (UTCTime × Text) → SubagentStatus
  | .cancelled, some (deadline, reason) => .suspended deadline reason
  | .finished _, some (deadline, reason) => .suspended deadline reason
  | result, _ => result.status

/-- The results after which `runWork` calls `commitRequestedSuspension`. -/
def RunResult.commits : RunResult → Bool
  | .cancelled => true
  | .finished _ => true
  | _ => false

inductive SupervisorPc
  /-- Acquiring the lease, before `ready`. -/
  | leasing
  | awaitWork
  /-- The work is taken; `resetCancel` is next. -/
  | starting (work : Work)
  | running (work : Work)
  /-- The run has returned; the supervisor waits for the lifecycle lock. -/
  | committing (work : Work) (result : RunResult)
  /-- It holds the lock. -/
  | persisting (work : Work) (result : RunResult)
  /-- The run has returned; a requested suspension is dropped next. -/
  | dropping (work : Work) (result : RunResult)
  | deciding (work : Work) (result : RunResult)
  | stepping (work : Work) (status : SubagentStatus)
  | completing (work : Work) (status : SubagentStatus)
  | notifying (work : Work) (status : SubagentStatus) (notifyRoot : Bool)
  | settling (work : Work) (status : SubagentStatus)
  | stopped
  deriving DecidableEq

structure SupervisorThread where
  owner : SubagentRecord
  pc : SupervisorPc
  /-- What the supervisor put into `ready`. -/
  ready : Option Bool
  /-- The record whose mail steers the run, from `acquire` to `release`. -/
  attached : Option SubagentRecord
  /-- History: the present run was marked and cancelled by an interrupter. -/
  requested : Bool

/-- A run is in progress, or about to start. -/
def SupervisorPc.inRun : SupervisorPc → Bool
  | .starting _ => true
  | .running _ => true
  | _ => false

inductive CommitOutcome
  | persisted
  | refused (error : Text)
  | threw (shown : Text)

inductive SupervisorEvent
  | lease (ok : Bool)
  | take
  | reset
  /-- The race of the run against `waitCancel` is lost. -/
  | cancelled
  /-- The run returns. -/
  | returned (result : RunResult)
  /-- `commitRequestedSuspension` takes the lock. -/
  | commit
  | committed (outcome : CommitOutcome)
  | drop
  | decide
  | step
  | publish
  | notify
  | finish
  /-- The thread is cancelled, and has unwound. -/
  | kill
  /-- The run opens and closes its mail, acknowledges some of it, and otherwise changes its own
  input queue. -/
  | acquireSteering (inputs : InputQueueState TurnInput)
  | releaseSteering
  | acknowledge (messages : ℕ) (count : ℤ)
  | loop (inputs : InputQueueState TurnInput)

def completionMetadata (work : Work) : Option InterAgentMessageMetadata :=
  work.workMessage.messageMetadata.map fun metadata =>
    { metadata with
      localMessageId := metadata.localMessageId ++ ":completion".toList
      originToolCallId := none }

/-- Where a supervisor goes after `nextSupervisorStep`. -/
def afterStep (work : Work) (status : SubagentStatus) : SupervisorStep → SupervisorPc
  | .stop => .stopped
  | .idle => .awaitWork
  | .complete => .completing work status
  | .message next => .starting next

/-- Where it goes after `finishSupervisorStep`. -/
def afterFinish : SupervisorStep → SupervisorPc
  | .stop => .stopped
  | .idle => .awaitWork
  | .complete => .stopped
  | .message next => .starting next

/-! ### Stopping a supervisor, shutting a record down, rolling an admission back -/

/-- `stopRecordSupervisor`. -/
inductive JoinPc
  | taking
  | joining (sid : ℕ)
  | joined
  deriving DecidableEq, Repr

/-- `takeRecordSupervisor`. -/
def Registry.takeSupervisor (reg : Registry) (record : SubagentRecord) : Registry :=
  { reg with recordAsync := Function.update reg.recordAsync record none }

def JoinPc.step (reg : Registry) (stopped : ℕ → Bool) (record : SubagentRecord) :
    JoinPc → Option (JoinPc × Registry)
  | .taking =>
      some ((reg.recordAsync record).elim .joined .joining, reg.takeSupervisor record)
  | .joining sid => if stopped sid then some (.joined, reg) else none
  | .joined => none

/-- `shutdownRecord`; a failure of the suspension storage is an exception of the thread. -/
inductive ShutdownPc
  | cancelling
  | closing
  | stopping (join : JoinPc)
  | finished
  deriving DecidableEq, Repr

def ShutdownPc.step (reg : Registry) (stopped : ℕ → Bool) (record : SubagentRecord) :
    ShutdownPc → Option (ShutdownPc × Registry)
  | .cancelling => some (.closing, reg.requestCancel record)
  | .closing => some (.stopping .taking, reg.closeRecord record)
  | .stopping .joined => some (.finished, reg.deleteSuspension record.recordId)
  | .stopping join => (join.step reg stopped record).map fun next => (.stopping next.1, next.2)
  | .finished => none

/-- `rollbackAdmission`. -/
inductive RollbackPc
  | deleting
  | stopping (join : JoinPc)
  deriving DecidableEq, Repr

def RollbackPc.step (reg : Registry) (stopped : ℕ → Bool) (record : SubagentRecord) :
    RollbackPc → Option (RollbackPc × Registry)
  | .deleting => some (.stopping .taking, reg.rollbackAdmission record)
  | .stopping join => (join.step reg stopped record).map fun next => (.stopping next.1, next.2)

/-! ### The operations under the lifecycle lock -/

/-- `interruptRecordForTurn` and `interruptRecord` on one record. -/
inductive InterruptPc
  | suspending
  | marking
  /-- The record is marked; `requestCancel` is next. -/
  | cancelling
  /-- In `waitForReleasedSlot`. -/
  | waiting
  | finished
  deriving DecidableEq, Repr

/-- Which of the two interrupters. -/
inductive InterruptKind
  | abortTurn (turn : RootTurnId)
  | active (wasClosed : Bool)
  deriving DecidableEq, Repr

/-- Who called `startRecordSupervisor`. -/
inductive StartCaller
  | spawn (tid : ℕ)
  | restoreExisting
  | restoreMissing
  deriving DecidableEq, Repr

/-- What is left of `resumeDueSubagents` behind one record; `queued` says that the work was taken
from the record's mailbox. -/
structure DueRun where
  now : UTCTime
  rest : List SubagentRecord
  queued : Bool

/-- The holder of the lifecycle lock, by what it does next. -/
inductive LockedOp
  /-- `commitRequestedSuspension`, with the request it found. -/
  | commit (sid : ℕ) (request : Option (UTCTime × Text))
  /-- `sendInput`. -/
  | sendFound (record : SubagentRecord) (work : Work) (interrupt : Bool)
  | sendQueue (record : SubagentRecord) (work : Work) (interrupt : Bool)
  | sendCancel (record : SubagentRecord)
  | restartReset (record : SubagentRecord) (work : Work)
  | restartSchedule (record : SubagentRecord) (work : Work)
  /-- `resumeSuspendedWork`, for `sendInput` or for `resumeDueSubagents`. -/
  | resumeAdmit (record : SubagentRecord) (work : Work) (due : Option DueRun)
  | resumePersist (record : SubagentRecord) (work : Work) (due : Option DueRun)
  | resumeReset (record : SubagentRecord) (work : Work) (due : Option DueRun)
  | resumeSchedule (record : SubagentRecord) (work : Work) (due : Option DueRun)
  /-- `resumeDueSubagents`. -/
  | dueNext (now : UTCTime) (records : List SubagentRecord)
  | dueTake (now : UTCTime) (record : SubagentRecord) (deadline : UTCTime) (reason : Text)
      (rest : List SubagentRecord)
  /-- `restoreMessage`, and whether the scheduler goes on. -/
  | dueRestore (record : SubagentRecord) (work : Work) (due : Option DueRun)
  /-- `closeSubagent`, before it knows the descendants. -/
  | closeFound (record : SubagentRecord)
  /-- `shutdownRecord` on several records, for `resetSubagentRegistry` or not. -/
  | shuttingDown (reset : Bool) (records : List SubagentRecord) (pc : SubagentRecord → ShutdownPc)
  /-- `stopSubagentRegistry`. -/
  | stopping (records : List SubagentRecord) (pc : SubagentRecord → JoinPc)
  /-- `abortRootTurn` and `interruptActiveSubagents`. -/
  | interrupting (kind : InterruptKind) (records : List SubagentRecord)
      (pc : SubagentRecord → InterruptPc)
  /-- `interruptSubagent`. -/
  | interruptFound (record : SubagentRecord)
  | interruptSettle (record : SubagentRecord)
  | interruptCancel (record : SubagentRecord)
  /-- `restoreExisting`. -/
  | restoreFound (record : SubagentRecord) (request : RestoreRequest)
  | restoreReset (record : SubagentRecord) (request : RestoreRequest) (wasClosed : Bool)
  | restoreWrite (record : SubagentRecord) (request : RestoreRequest) (wasClosed : Bool)
  | restoreReopen (record : SubagentRecord) (request : RestoreRequest)
  | restoreFailed (record : SubagentRecord)
  /-- `restoreMissing`. -/
  | restoreInsert (request : RestoreRequest)
  | restoreIdle (record : SubagentRecord) (request : RestoreRequest)
  | restoreRollback (record : SubagentRecord) (pc : RollbackPc)
  /-- `startRecordSupervisor`. -/
  | startCheck (record : SubagentRecord) (caller : StartCaller)
  | startThread (record : SubagentRecord) (caller : StartCaller)
  | startWait (record : SubagentRecord) (sid : ℕ) (caller : StartCaller)
  /-- It stops the supervisor again, because of an exception or not. -/
  | startStop (record : SubagentRecord) (join : JoinPc) (caller : StartCaller) (thrown : Bool)
  /-- `requestSubagentSuspension`, past its check. -/
  | suspendInsert (agentId : SubagentId) (deadline : UTCTime) (reason : Text)

/-- The calls that take the lock. -/
inductive LifecycleRequest
  | sendInput (agentId : SubagentId) (turn : Option RootTurnId) (senderPath : TaskPath)
      (content : InterAgentMessageContent) (metadata : InterAgentMessageMetadata)
      (interrupt : Bool)
  | queueMessage (agentId : SubagentId) (turn : Option RootTurnId) (senderPath : TaskPath)
      (content : InterAgentMessageContent) (metadata : InterAgentMessageMetadata)
  | resumeDueSubagents (now : UTCTime)
  | closeSubagent (agentId : SubagentId)
  | closeSubagentRegistry
  | resetSubagentRegistry
  | stopSubagentRegistry
  | abortRootTurn (turn : RootTurnId)
  | interruptActiveSubagents
  | interruptSubagent (agentId : SubagentId)
  | restoreSubagent (request : RestoreRequest)
  | requestSubagentSuspension (agentId : SubagentId) (now deadline : UTCTime) (reason : Text)

/-- The follow-up work of `sendInput`. -/
def followUpWork (record : SubagentRecord) (turn : Option RootTurnId) (senderPath : TaskPath)
    (content : InterAgentMessageContent) (metadata : InterAgentMessageMetadata) : Work where
  workRootTurnId := turn
  workMessage :=
    { messageAuthor := senderPath
      messageRecipient := record.recordTaskPath
      messageType := .followUp
      messageContent := content
      messageMetadata := some metadata }
  workTag := ()

/-- The work `resumeDueSubagents` schedules itself; its message carries fresh metadata, which
nothing here reads. -/
def scheduledWork (record : SubagentRecord) (reason : Text) : Work where
  workRootTurnId := none
  workMessage :=
    { messageAuthor := taskPathRoot
      messageRecipient := record.recordTaskPath
      messageType := .followUp
      messageContent := .plain
        ("Scheduled suspension has ended. Recheck current conditions before acting. Reason: ".toList
          ++ reason)
      messageMetadata := none }
  workTag := ()

/-- Take the lock and make the first transaction; without an operation the call is over.
`registryClosed` only changes under the lock, so its check is read together with the lookup. -/
def beginOp (reg : Registry) : LifecycleRequest → Registry × Option LockedOp
  | .sendInput agentId turn senderPath content metadata interrupt =>
      if reg.registryClosed then (reg, none)
      else
        (reg, (reg.lookup agentId).map fun record =>
          .sendFound record (followUpWork record turn senderPath content metadata) interrupt)
  | .queueMessage agentId turn senderPath content metadata =>
      match reg.queueMessage turn senderPath agentId content metadata with
      | .error _ => (reg, none)
      | .ok queued => (queued, none)
  | .resumeDueSubagents now => (reg, some (.dueNext now reg.registryAgents))
  | .closeSubagent agentId => (reg, (reg.lookup agentId).map .closeFound)
  | .closeSubagentRegistry =>
      ({ reg with registryClosed := true },
        some (.shuttingDown false reg.registryAgents fun _ => .cancelling))
  | .resetSubagentRegistry =>
      ({ reg with registryClosed := true },
        some (.shuttingDown true reg.registryAgents fun _ => .cancelling))
  | .stopSubagentRegistry =>
      ({ reg with registryClosed := true }, some (.stopping reg.registryAgents fun _ => .taking))
  | .abortRootTurn turn =>
      (reg.markAborted turn,
        some (.interrupting (.abortTurn turn) (reg.ownedRecords turn) fun _ => .suspending))
  | .interruptActiveSubagents =>
      ({ reg with registryClosed := true },
        some (.interrupting (.active reg.registryClosed) reg.activeRecords fun _ => .marking))
  | .interruptSubagent agentId => (reg, (reg.lookup agentId).map .interruptFound)
  | .restoreSubagent request =>
      if reg.registryClosed then (reg, none)
      else
        match reg.lookup request.agentId with
        | some record => (reg, some (.restoreFound record request))
        | none => (reg, some (.restoreInsert request))
  | .requestSubagentSuspension agentId now deadline reason =>
      match reg.lookup agentId with
      | some record =>
          if reg.registryClosed = false ∧ reg.status record = .running ∧
              now.instant < deadline.instant ∧ strip reason ≠ [] ∧ reason.length ≤ 4000 then
            (reg, some (.suspendInsert agentId deadline reason))
          else (reg, none)
      | none => (reg, none)

/-- How a resumption that failed or succeeded goes on. -/
def afterResume (record : SubagentRecord) (work : Work) (due : Option DueRun) (ok : Bool) :
    Option LockedOp :=
  due.map fun due =>
    if due.queued && !ok then .dueRestore record work (some due) else .dueNext due.now due.rest

/-- The operations that only look at the registry.  `ok` is the answer of the suspension storage,
where one is asked. -/
def LockedOp.advance (reg : Registry) (ok : Bool) : LockedOp → Option (Registry × Option LockedOp)
  | .sendFound record work interrupt =>
      match reg.status record with
      | .closed => some (reg, none)
      | .notFound => some (reg, none)
      | .running => some (reg, some (.sendQueue record work interrupt))
      | .pending => some (reg, some (.sendQueue record work interrupt))
      | .suspended _ _ => some (reg, some (.resumeAdmit record work none))
      | _ => some (reg, some (.restartReset record work))
  | .sendQueue record work interrupt =>
      if reg.isRootTurnAborted work.workRootTurnId then some (reg, none)
      else some (reg.enqueueWork record work, if interrupt then some (.sendCancel record) else none)
  | .sendCancel record => some (reg.requestCancel record, none)
  | .restartReset record work => some (reg.resetCancel record, some (.restartSchedule record work))
  | .restartSchedule record work =>
      if reg.isRootTurnAborted work.workRootTurnId then some (reg, none)
      else
        match reg.scheduleIdleWork record work with
        | .error _ => some (reg, none)
        | .ok scheduled => some (scheduled, none)
  | .resumeAdmit record work due =>
      match reg.resumeAdmission work with
      | .error _ => some (reg, afterResume record work due false)
      | .ok () => some (reg, some (.resumePersist record work due))
  | .resumePersist record work due =>
      if ok then some (reg, some (.resumeReset record work due))
      else some (reg, afterResume record work due false)
  | .resumeReset record work due =>
      some (reg.resetCancel record, some (.resumeSchedule record work due))
  | .resumeSchedule record work due =>
      match reg.scheduleIdleWork record work with
      | .error _ => some (reg, afterResume record work due false)
      | .ok scheduled => some (scheduled, afterResume record work due true)
  | .dueNext _ [] => some (reg, none)
  | .dueNext now (record :: rest) =>
      match reg.status record with
      | .suspended deadline reason => some (reg, some (.dueTake now record deadline reason rest))
      | _ => some (reg, some (.dueNext now rest))
  | .dueTake now record deadline reason rest =>
      match (reg.recordMail record).recordMailbox with
      | work :: mailbox =>
          some (reg.setMailbox record mailbox,
            some (.resumeAdmit record work (some { now := now, rest := rest, queued := true })))
      | [] =>
          if deadline.instant ≤ now.instant then
            some (reg, some (.resumeAdmit record (scheduledWork record reason)
              (some { now := now, rest := rest, queued := false })))
          else some (reg, some (.dueNext now rest))
  | .dueRestore record work due =>
      some (reg.setMailbox record (work :: (reg.recordMail record).recordMailbox),
        due.map fun due => .dueNext due.now due.rest)
  | .closeFound record =>
      (descendants reg.registryAgents (reg.registryAgents.length + 1) record.recordId).map
        fun below => (reg, some (.shuttingDown false (below ++ [record]) fun _ => .cancelling))
  | .interruptFound record => some (reg.cancelSuspension record, some (.interruptSettle record))
  | .interruptSettle record =>
      some ((reg.interruptPending record).2,
        if (reg.interruptPending record).1 then none else some (.interruptCancel record))
  | .interruptCancel record => some (reg.requestCancel record, none)
  | .restoreFound record request =>
      match reg.status record with
      | .running => some (reg, none)
      | .pending => some (reg, none)
      | .notFound => some (reg, none)
      -- an interrupting record is restored, too: its status is final
      | status => some (reg, some (.restoreReset record request (status = .closed)))
  | .restoreReset record request wasClosed =>
      some (reg.resetCancel record, some (.restoreWrite record request wasClosed))
  | .restoreWrite record request wasClosed =>
      some (reg.rewriteRecord record request.normalizedPhase,
        if wasClosed then some (.restoreReopen record request) else none)
  | .restoreReopen record request =>
      some (reg.setPhase record (.idle request.normalizedStatus none),
        some (.startCheck record .restoreExisting))
  | .restoreFailed record => some (reg.setPhase record .closed, none)
  | .restoreInsert request =>
      match reg.restoreMissing request with
      | .error _ => some (reg, none)
      | .ok (record, restored) => some (restored, some (.restoreIdle record request))
  | .restoreIdle record request =>
      some (match request.normalizedPhase with
        | .closed => reg.setPhase record (.idle request.normalizedStatus none)
        | _ => reg,
        some (.startCheck record .restoreMissing))
  | .suspendInsert agentId deadline reason =>
      some ({ reg with
        registrySuspensions :=
          Function.update reg.registrySuspensions agentId (some (deadline, reason)) }, none)
  | _ => none

/-! ### Spawns and waits -/

inductive SpawnPc
  /-- `beforeStart` runs. -/
  | preparing
  /-- Waiting for the lock. -/
  | starting
  /-- In `startRecordSupervisor`, holding it. -/
  | started
  /-- The supervisor runs; the call is about to return. -/
  | leaving
  | shutting (pc : ShutdownPc)
  /-- `rollbackAdmission`; an exception in the first one leads to a last one. -/
  | rollingBack (pc : RollbackPc) (last : Bool)
  | done
  deriving DecidableEq, Repr

structure SpawnThread where
  record : SubagentRecord
  pc : SpawnPc

inductive SpawnEvent
  | prepared (ok : Bool)
  | start
  /-- An exception stops the spawning thread. -/
  | killed
  | proceed
  | returned

inductive WaitPc
  | waiting
  /-- The result is chosen; the wait is still registered, except that of `waitAnyLive`. -/
  | selected (statuses : SubagentId → Option SubagentStatus) (timedOut : Bool)
  /-- An exception stopped it before it unregistered. -/
  | killed
  | returned (statuses : SubagentId → Option SubagentStatus) (timedOut : Bool)
  | gone

/-- `waitSubagentsFrom`, or `waitAnyLive` where there are no targets. -/
structure WaitThread where
  caller : Option SubagentId
  targets : Option (List SubagentId)
  pc : WaitPc
  /-- History: the children whose completion was left to this wait. -/
  owed : List SubagentRecord

def WaitPc.isWaiting : WaitPc → Bool
  | .waiting => true
  | _ => false

/-- The wait would report the child. -/
def WaitThread.covers (thread : WaitThread) (child : SubagentRecord) : Bool :=
  match thread.targets with
  | some targets => child.recordId ∈ targets
  | none => thread.caller ≠ some child.recordId

/-- The wait is one of the child's parent, and would report the child. -/
def WaitThread.attends (child : SubagentRecord) (thread : WaitThread) : Bool :=
  thread.pc.isWaiting && child.recordParent.isSome && thread.caller == child.recordParent &&
    thread.covers child

/-- A completion of the child is left to the waits of its parent. -/
def WaitThread.owe (child : SubagentRecord) (thread : WaitThread) : WaitThread :=
  if thread.attends child then { thread with owed := child :: thread.owed } else thread

inductive WaitEvent
  | select (rootReady : Bool)
  | timeout
  | unregister
  | kill

/-! ### The world -/

structure RegistryWorld where
  registry : Registry
  lifecycle : Option LockedOp
  supervisors : List SupervisorThread
  spawns : List SpawnThread
  waits : List WaitThread
  /-- History: the root turns whose abort has returned. -/
  abortReturned : List RootTurnId

inductive RegistryEvent
  | supervisor (sid : ℕ) (event : SupervisorEvent)
  | spawn (request : SpawnRequest)
  | spawned (tid : ℕ) (event : SpawnEvent)
  | request (call : LifecycleRequest)
  | advance (ok : Bool)
  /-- `startRecordSupervisor` and the rollback of `restoreMissing`. -/
  | start (ok : Bool)
  /-- An operation on several records moves on one of them. -/
  | worker (record : SubagentRecord)
  /-- It is through with all of them. -/
  | conclude
  /-- An exception stops the holder of the lock. -/
  | abandon
  | wait (caller : Option SubagentId) (targets : Option (List SubagentId))
  | waiting (wid : ℕ) (event : WaitEvent)
  | setMaxConcurrent (limit : ℤ)
  | beginRootTurn

/-- The registry is stopped without closing its agents. -/
def RegistryEvent.stops : RegistryEvent → Bool
  | .request .stopSubagentRegistry => true
  | _ => false

namespace RegistryWorld

def init (config : SubagentConfig) : RegistryWorld where
  registry := .new config
  lifecycle := none
  supervisors := []
  spawns := []
  waits := []
  abortReturned := []

variable (w : RegistryWorld)

/-- The supervisor thread has ended. -/
def hasStopped (sid : ℕ) : Bool :=
  (w.supervisors[sid]?).all fun thread => thread.pc = .stopped

/-! ### Moves of a supervisor -/

/-- Move the supervisor `sid`, with the registry as it is then. -/
def setSupervisor (sid : ℕ) (thread : SupervisorThread) (reg : Registry) : RegistryWorld :=
  { w with registry := reg, supervisors := w.supervisors.set sid thread }

/-- The mail a run is attached to. -/
def onMail (thread : SupervisorThread)
    (f : SubagentSteering Unit → Option (SubagentSteering Unit)) : Option RegistryWorld := do
  let record ← thread.attached
  let steering ← (w.registry.recordMail record).recordSteering
  let next ← f steering
  return { w with
    registry := w.registry.setMail record
      { w.registry.recordMail record with recordSteering := some next } }

/-- One move of a supervisor. -/
def supervise (sid : ℕ) (thread : SupervisorThread) : SupervisorEvent → Option RegistryWorld
  | .lease ok =>
      match thread.pc with
      | .leasing =>
          some (w.setSupervisor sid
            { thread with pc := if ok then .awaitWork else .stopped, ready := some ok } w.registry)
      | _ => none
  | .take =>
      match thread.pc with
      | .awaitWork =>
          (w.registry.takeStartedWork thread.owner).map fun taken =>
            w.setSupervisor sid { thread with pc := taken.1.elim .stopped .starting } taken.2
      | _ => none
  | .reset =>
      match thread.pc with
      | .starting work =>
          some (w.setSupervisor sid { thread with pc := .running work }
            (w.registry.resetCancel thread.owner))
      | _ => none
  | .cancelled =>
      match thread.pc with
      | .running work =>
          -- `race` stops the run and waits until it has unwound
          if w.registry.recordCancel thread.owner ∧ thread.attached = none then
            some (w.setSupervisor sid
              { thread with pc := .dropping work .cancelled, requested := false } w.registry)
          else none
      | _ => none
  | .returned result =>
      match thread.pc with
      | .running work =>
          if thread.attached = none then
            some (w.setSupervisor sid
              { thread with
                pc := if result.commits then .committing work result else .dropping work result
                requested := false } w.registry)
          else none
      | _ => none
  | .commit =>
      match thread.pc, w.lifecycle with
      | .committing work result, none =>
          some { w.setSupervisor sid { thread with pc := .persisting work result } w.registry with
            lifecycle := some
              (.commit sid (w.registry.registrySuspensions thread.owner.recordId)) }
      | _, _ => none
  | .committed outcome =>
      match thread.pc, w.lifecycle with
      | .persisting work result, some (.commit holder request) =>
          if holder = sid then
            match outcome, request with
            | .persisted, _ =>
                some {
                  w.setSupervisor sid { thread with pc := .deciding work result } w.registry with
                  lifecycle := none }
            -- the storage answers that it cannot, and the request is dropped with its reason
            | .refused error, some _ =>
                some { w.setSupervisor sid { thread with pc := .deciding work (.exception error) }
                    (w.registry.deleteSuspension thread.owner.recordId) with
                  lifecycle := none }
            | .threw shown, some _ =>
                some { w.setSupervisor sid { thread with pc := .deciding work (.exception shown) }
                    w.registry with
                  lifecycle := none }
            | _, none => none
          else none
      | _, _ => none
  | .drop =>
      match thread.pc with
      | .dropping work result =>
          some (w.setSupervisor sid { thread with pc := .deciding work result }
            (w.registry.deleteSuspension thread.owner.recordId))
      | _ => none
  | .decide =>
      match thread.pc with
      | .deciding work result =>
          some (w.setSupervisor sid
            { thread with
              pc := .stepping work (settledStatus result
                (w.registry.registrySuspensions thread.owner.recordId)) } w.registry)
      | _ => none
  | .step =>
      match thread.pc with
      | .stepping work status =>
          (if isSuspended status then w.registry.supervisorStepWithoutMailbox thread.owner
            else w.registry.nextSupervisorStep thread.owner).map fun next =>
            w.setSupervisor sid { thread with pc := afterStep work status next.1 } next.2
      | _ => none
  | .publish =>
      match thread.pc with
      | .completing work status =>
          let published :=
            w.registry.publishCompletion thread.owner status (completionMetadata work)
          some { w.setSupervisor sid { thread with pc := .notifying work status published.1 }
              published.2 with
            waits :=
              if w.registry.leftToWait thread.owner then w.waits.map (·.owe thread.owner)
              else w.waits }
      | _ => none
  | .notify =>
      match thread.pc with
      | .notifying work status _ =>
          some (w.setSupervisor sid { thread with pc := .settling work status } w.registry)
      | _ => none
  | .finish =>
      match thread.pc with
      | .settling _ status =>
          (w.registry.finishSupervisorStep thread.owner status).map fun next =>
            w.setSupervisor sid { thread with pc := afterFinish next.1 } next.2
      | _ => none
  | .kill =>
      -- only a supervisor that was taken out of its record is cancelled, by who joins it
      if w.registry.recordAsync thread.owner ≠ some sid ∧ thread.attached = none then
        some {
          w.setSupervisor sid { thread with pc := .stopped, requested := false } w.registry with
          lifecycle :=
            match thread.pc with
            | .persisting _ _ => none
            | _ => w.lifecycle }
      else none
  | .acquireSteering inputs =>
      match thread.pc, thread.attached with
      | .running _, none => do
          let record ← w.registry.lookup thread.owner.recordId
          let mail ← (w.registry.recordMail record).acquire inputs
          return w.setSupervisor sid { thread with attached := some record }
            (w.registry.setMail record mail)
      | _, _ => none
  | .releaseSteering =>
      match thread.attached with
      | some record =>
          some (w.setSupervisor sid { thread with attached := none }
            (w.registry.setMail record ((w.registry.recordMail record).release
              (w.registry.recordPhase record = .closed) w.registry.registryAbortedRootTurns)))
      | none => none
  | .acknowledge messages count => w.onMail thread (·.acknowledge messages count)
  | .loop inputs => w.onMail thread fun steering => some { steering with steeringInputs := inputs }

/-! ### Starting a supervisor -/

def setSpawn (tid : ℕ) (pc : SpawnPc) : List SpawnThread :=
  w.spawns.modify tid fun thread => { thread with pc := pc }

/-- `startRecordSupervisor` returns `Right`. -/
def startSucceeded : StartCaller → RegistryWorld
  | .spawn tid => { w with lifecycle := none, spawns := w.setSpawn tid .leaving }
  | _ => { w with lifecycle := none }

/-- It returns `Left`. -/
def startFailed (record : SubagentRecord) : StartCaller → RegistryWorld
  | .spawn tid =>
      { w with lifecycle := none, spawns := w.setSpawn tid (.rollingBack .deleting false) }
  | .restoreExisting => { w with lifecycle := some (.restoreFailed record) }
  | .restoreMissing => { w with lifecycle := some (.restoreRollback record .deleting) }

/-- An exception leaves it. -/
def startThrown : StartCaller → RegistryWorld
  | .spawn tid => { w with lifecycle := none, spawns := w.setSpawn tid (.shutting .cancelling) }
  | _ => { w with lifecycle := none }

/-- The moves of `startRecordSupervisor`, and of the rollback of `restoreMissing`. -/
def startStep (ok : Bool) : LockedOp → Option RegistryWorld
  | .startCheck record caller =>
      match w.registry.startupRejection record with
      | some _ => some (w.startFailed record caller)
      | none => some { w with lifecycle := some (.startThread record caller) }
  | .startThread record caller =>
      if ok then
        some { w with
          registry := { w.registry with
            recordAsync :=
              Function.update w.registry.recordAsync record (some w.supervisors.length) }
          supervisors := w.supervisors ++
            [{ owner := record, pc := .leasing, ready := none, attached := none,
               requested := false }]
          lifecycle := some (.startWait record w.supervisors.length caller) }
      else some (w.startFailed record caller)
  | .startWait record sid caller =>
      match (w.supervisors[sid]?).bind (·.ready) with
      | some true => some (w.startSucceeded caller)
      -- the lease was refused
      | some false => some { w with lifecycle := some (.startStop record .taking caller false) }
      | none => none
  | .startStop record .joined caller thrown =>
      some (if thrown then w.startThrown caller else w.startFailed record caller)
  | .startStop record join caller thrown =>
      (join.step w.registry w.hasStopped record).map fun next =>
        { w with
          registry := next.2
          lifecycle := some (.startStop record next.1 caller thrown) }
  | .restoreRollback _ (.stopping .joined) => some { w with lifecycle := none }
  | .restoreRollback record pc =>
      (pc.step w.registry w.hasStopped record).map fun next =>
        { w with registry := next.2, lifecycle := some (.restoreRollback record next.1) }
  | _ => none

/-! ### Operations on several records -/

/-- The marking transaction of an interrupter. -/
def mark (kind : InterruptKind) (record : SubagentRecord) : InterruptDisposition × Registry :=
  match kind with
  | .abortTurn turn => w.registry.interruptRecordForTurn turn record
  | .active _ => w.registry.interruptRecord record

/-- One interrupter on one record. -/
def interruptStep (kind : InterruptKind) (records : List SubagentRecord)
    (pc : SubagentRecord → InterruptPc) (record : SubagentRecord) : Option RegistryWorld :=
  let move := fun next => some (.interrupting kind records (Function.update pc record next))
  match pc record with
  | .suspending =>
      some { w with registry := w.registry.cancelSuspension record, lifecycle := move .marking }
  | .marking =>
      some { w with
        registry := (w.mark kind record).2
        lifecycle := move (if (w.mark kind record).1 = .wait then .cancelling else .finished) }
  | .cancelling =>
      some { w with
        registry := w.registry.requestCancel record
        supervisors := w.supervisors.map fun thread =>
          if thread.owner = record ∧ thread.pc.inRun then { thread with requested := true }
          else thread
        lifecycle := move .waiting }
  | .waiting =>
      -- `waitForReleasedSlot`
      if phaseHoldsSlot (w.registry.recordPhase record) then none
      else some { w with lifecycle := move .finished }
  | .finished => none

def workerStep (record : SubagentRecord) : LockedOp → Option RegistryWorld
  | .shuttingDown reset records pc =>
      if record ∈ records then
        ((pc record).step w.registry w.hasStopped record).map fun next =>
          { w with
            registry := next.2
            lifecycle := some (.shuttingDown reset records (Function.update pc record next.1)) }
      else none
  | .stopping records pc =>
      if record ∈ records then
        ((pc record).step w.registry w.hasStopped record).map fun next =>
          { w with
            registry := next.2
            lifecycle := some (.stopping records (Function.update pc record next.1)) }
      else none
  | .interrupting kind records pc =>
      if record ∈ records then w.interruptStep kind records pc record else none
  | _ => none

/-- The end of an operation on several records. -/
def concludeStep : LockedOp → Option RegistryWorld
  | .shuttingDown reset records pc =>
      if ∀ record ∈ records, pc record = .finished then
        some { w with
          registry := if reset then w.registry.clear else w.registry
          lifecycle := none }
      else none
  | .stopping records pc =>
      if ∀ record ∈ records, pc record = .joined then
        some { w with
          -- the source resets the count and leaves the phases as they are
          registry := { w.registry with registryLiveCount := 0 }
          lifecycle := none }
      else none
  | .interrupting kind records pc =>
      if ∀ record ∈ records, pc record = .finished then
        match kind with
        | .abortTurn turn =>
            some { w with lifecycle := none, abortReturned := turn :: w.abortReturned }
        | .active wasClosed =>
            some { w with
              registry := { w.registry with registryClosed := wasClosed }
              lifecycle := none }
      else none
  | _ => none

/-! ### Exceptions of the holder of the lock -/

/-- The handlers run, and the lock is released. -/
def abandonStep : LockedOp → Option RegistryWorld
  | .commit _ _ => none
  | .resumeAdmit record work (some due) =>
      some { w with lifecycle := if due.queued then some (.dueRestore record work none) else none }
  | .resumePersist record work (some due) =>
      some { w with lifecycle := if due.queued then some (.dueRestore record work none) else none }
  | .resumeReset record work (some due) =>
      some { w with lifecycle := if due.queued then some (.dueRestore record work none) else none }
  | .resumeSchedule record work (some due) =>
      some { w with lifecycle := if due.queued then some (.dueRestore record work none) else none }
  -- `finally` reopens the registry, unless it was closed before
  | .interrupting (.active wasClosed) _ _ =>
      some { w with
        registry := { w.registry with registryClosed := wasClosed }
        lifecycle := none }
  | .startCheck _ caller => some (w.startThrown caller)
  | .startThread _ caller => some (w.startThrown caller)
  | .startWait record _ caller =>
      some { w with lifecycle := some (.startStop record .taking caller true) }
  | .startStop _ _ caller _ => some (w.startThrown caller)
  | _ => some { w with lifecycle := none }

/-! ### Moves of spawns and waits -/

/-- One move of a spawn after its admission. -/
def spawnStep (tid : ℕ) (thread : SpawnThread) : SpawnEvent → Option RegistryWorld
  | .prepared ok =>
      match thread.pc with
      | .preparing =>
          some { w with
            spawns := w.setSpawn tid (if ok then .starting else .rollingBack .deleting false) }
      | _ => none
  | .start =>
      match thread.pc, w.lifecycle with
      | .starting, none =>
          some { w with
            spawns := w.setSpawn tid .started
            lifecycle := some (.startCheck thread.record (.spawn tid)) }
      | _, _ => none
  | .killed =>
      match thread.pc with
      | .preparing => some { w with spawns := w.setSpawn tid (.rollingBack .deleting true) }
      | .starting => some { w with spawns := w.setSpawn tid (.shutting .cancelling) }
      | .leaving => some { w with spawns := w.setSpawn tid (.shutting .cancelling) }
      -- the handlers run masked, so only their blocking parts can be interrupted
      | .shutting (.stopping _) =>
          some { w with spawns := w.setSpawn tid (.rollingBack .deleting true) }
      | .rollingBack (.stopping _) false =>
          some { w with spawns := w.setSpawn tid (.rollingBack .deleting true) }
      | .rollingBack (.stopping _) true => some { w with spawns := w.setSpawn tid .done }
      | _ => none
  | .proceed =>
      match thread.pc with
      | .shutting .finished =>
          some { w with spawns := w.setSpawn tid (.rollingBack .deleting true) }
      | .shutting pc =>
          (pc.step w.registry w.hasStopped thread.record).map fun next =>
            { w with registry := next.2, spawns := w.setSpawn tid (.shutting next.1) }
      | .rollingBack (.stopping .joined) _ => some { w with spawns := w.setSpawn tid .done }
      | .rollingBack pc last =>
          (pc.step w.registry w.hasStopped thread.record).map fun next =>
            { w with registry := next.2, spawns := w.setSpawn tid (.rollingBack next.1 last) }
      | _ => none
  | .returned =>
      match thread.pc with
      | .leaving => some { w with spawns := w.setSpawn tid .done }
      | _ => none

def setWait (wid : ℕ) (thread : WaitThread) (pc : WaitPc) : List WaitThread :=
  w.waits.set wid { thread with pc := pc }

/-- One move of a wait. -/
def waitStep (wid : ℕ) (thread : WaitThread) : WaitEvent → Option RegistryWorld
  | .select rootReady =>
      match thread.pc, thread.targets with
      | .waiting, some targets =>
          if targets.any fun target => isFinalStatus (w.registry.readStatus target) then
            some { w with
              waits := w.setWait wid thread
                (.selected (statusMap (w.registry.targetStatuses targets)) false) }
          else none
      | .waiting, none =>
          match w.registry.takeAgentUpdates thread.caller with
          | some (statuses, taken) =>
              some { w with
                registry := taken.setActiveWait thread.caller none
                waits := w.setWait wid thread (.selected statuses false) }
          | none =>
              -- mail for the caller ends the wait without any status
              if w.registry.pendingMessages rootReady thread.caller then
                some { w with
                  registry := w.registry.setActiveWait thread.caller none
                  waits := w.setWait wid thread (.selected (fun _ => none) false) }
              else none
      | _, _ => none
  | .timeout =>
      match thread.pc with
      | .waiting =>
          some { w with
            waits := w.setWait wid thread
              (.selected (thread.targets.elim (fun _ => none)
                fun targets => statusMap (w.registry.targetStatuses targets)) true) }
      | _ => none
  | .unregister =>
      match thread.pc with
      | .selected statuses timedOut =>
          some { w with
            registry := w.registry.setActiveWait thread.caller none
            waits := w.setWait wid thread (.returned statuses timedOut) }
      | .killed =>
          some { w with
            registry := w.registry.setActiveWait thread.caller none
            waits := w.setWait wid thread .gone }
      | _ => none
  | .kill =>
      match thread.pc with
      | .waiting => some { w with waits := w.setWait wid thread .killed }
      | .selected _ _ => some { w with waits := w.setWait wid thread .killed }
      | _ => none

/-! ### Every move -/

def step : RegistryEvent → Option RegistryWorld
  | .supervisor sid event => (w.supervisors[sid]?).bind fun thread => w.supervise sid thread event
  | .spawn request =>
      match w.lifecycle with
      | some _ => none
      | none =>
          match w.registry.admitSubagent request with
          | .error _ => some w
          | .ok (record, admitted) =>
              some { w with
                registry := admitted
                spawns := w.spawns ++ [{ record := record, pc := .preparing }] }
  | .spawned tid event => (w.spawns[tid]?).bind fun thread => w.spawnStep tid thread event
  | .request call =>
      match w.lifecycle with
      | some _ => none
      | none =>
          some { w with
            registry := (beginOp w.registry call).1
            lifecycle := (beginOp w.registry call).2 }
  | .advance ok =>
      w.lifecycle.bind fun op => (op.advance w.registry ok).map fun next =>
        { w with registry := next.1, lifecycle := next.2 }
  | .start ok => w.lifecycle.bind (w.startStep ok)
  | .worker record => w.lifecycle.bind (w.workerStep record)
  | .conclude => w.lifecycle.bind w.concludeStep
  | .abandon => w.lifecycle.bind w.abandonStep
  | .wait caller targets =>
      some { w with
        registry := w.registry.setActiveWait caller (some (targets.getD []))
        waits := w.waits ++ [{ caller := caller, targets := targets, pc := .waiting, owed := [] }] }
  | .waiting wid event => (w.waits[wid]?).bind fun thread => w.waitStep wid thread event
  | .setMaxConcurrent limit =>
      some { w with
        registry := { w.registry with
          registryConfig := { w.registry.registryConfig with maxConcurrent := max 1 limit } } }
  | .beginRootTurn =>
      some { w with
        registry := { w.registry with
          registryNextRootTurnId := w.registry.registryNextRootTurnId + 1 } }

end RegistryWorld

end HaskellAgent
