import Mathlib.Data.Finset.Basic
import Mathlib.Data.List.Sort
import HaskellAgent.Lib.FinMap
import HaskellAgent.Server.Turns

/-!
# The state of the supervisor

The supervisor queues turns, runs them in workers, cancels them, and waits for people.  All of this
is kept in one variable, which every thread reads and writes in transactions.  Each transaction is a
function of the state here.

A session is reserved while it is changed, and while a turn of it runs, by one set of keys.
-/

namespace HaskellAgent
namespace Server

structure TurnSlot where
  turnSlotSpec : TurnSpec
  turnSlotRecord : TurnRecord
  turnSlotCancelling : Bool
  deriving DecidableEq

abbrev TurnSlot.active (slot : TurnSlot) : Bool := slot.turnSlotRecord.active

abbrev TurnSlot.status (slot : TurnSlot) : TurnStatus := slot.turnSlotRecord.turnRecordStatus

inductive TurnEventType
  | turnQueued
  | turnStarted
  | turnCompleted
  | turnFailed
  | turnCancelled
  | requestCreated (requestId : RequestId)
  | requestResolved (requestId : RequestId)
  /-- An event of the runner. -/
  | emitted (eventType : Text)
  deriving DecidableEq

/-- An event about a turn. -/
structure TurnEvent where
  eventType : TurnEventType
  turnId : TurnId
  deriving DecidableEq

structure SupervisorState where
  stateQueue : List TurnId
  stateTurns : FinMap TurnId TurnSlot
  stateActiveSessions : Finset SessionKey
  /-- The worker of each turn that has one. -/
  stateWorkers : FinMap TurnId ℕ
  stateCancellationTasks : FinMap TurnId ℕ
  statePendingInputs : FinMap RequestId HumanRequest
  /-- Everything ever appended. -/
  stateEvents : List TurnEvent
  stateLastScheduledTenant : Option Text
  stateClosed : Bool

def SupervisorState.init : SupervisorState where
  stateQueue := []
  stateTurns := .empty
  stateActiveSessions := ∅
  stateWorkers := .empty
  stateCancellationTasks := .empty
  statePendingInputs := .empty
  stateEvents := []
  stateLastScheduledTenant := none
  stateClosed := false

def appendTurnEvent (eventType : TurnEventType) (turnId : TurnId) (state : SupervisorState) :
    SupervisorState :=
  { state with stateEvents := state.stateEvents ++ [⟨eventType, turnId⟩] }

/-! ### Reservations of sessions -/

inductive SessionMutationError
  | sessionMutationBusy
  | sessionMutationSupervisorClosed
  deriving DecidableEq

def sessionBusy (key : SessionKey) (turns : FinMap TurnId TurnSlot) : Bool :=
  turns.elems.any fun slot => slot.turnSlotRecord.key = key ∧ slot.active

/-- The first transaction of `withSessionReservation`; `none` where it waits. -/
def acquireSession (waitForReservation : Bool) (key : SessionKey) (state : SupervisorState) :
    Option (Except SessionMutationError SupervisorState) :=
  if state.stateClosed then some (.error .sessionMutationSupervisorClosed)
  else if sessionBusy key state.stateTurns then some (.error .sessionMutationBusy)
  else if key ∈ state.stateActiveSessions then
    if waitForReservation then none else some (.error .sessionMutationBusy)
  else some (.ok { state with stateActiveSessions := insert key state.stateActiveSessions })

/-- The last transaction of `withSessionReservation`. -/
def releaseSession (key : SessionKey) (state : SupervisorState) : SupervisorState :=
  { state with stateActiveSessions := state.stateActiveSessions.erase key }

/-! ### Admission -/

def turnAttachmentBytes (spec : TurnSpec) : ℕ :=
  (spec.turnSpecImages.map List.length).sum + (spec.turnSpecFiles.map List.length).sum

def maximumQueuedAttachmentBytes : ℕ := 80 * 1024 * 1024

def maximumQueuedAttachmentBytesPerTenant : ℕ := 40 * 1024 * 1024

/-- The slot waits in the queue, or did when its cancellation began. -/
def queuedSlot (slot : TurnSlot) : Bool := decide (slot.status = .turnQueued)

def ofTenant (tenantId : Text) (slot : TurnSlot) : Bool :=
  decide (slot.turnSlotRecord.turnRecordBoundary.accessTenantId = tenantId)

def queuedAttachmentBytes (turns : FinMap TurnId TurnSlot) : ℕ :=
  ((turns.elems.filter queuedSlot).map fun slot => turnAttachmentBytes slot.turnSlotSpec).sum

def queuedAttachmentBytesForTenant (tenantId : Text) (turns : FinMap TurnId TurnSlot) : ℕ :=
  ((turns.elems.filter fun slot => queuedSlot slot && ofTenant tenantId slot).map
    fun slot => turnAttachmentBytes slot.turnSlotSpec).sum

def queuedForTenant (tenantId : Text) (turns : FinMap TurnId TurnSlot) : ℕ :=
  (turns.elems.filter fun slot => queuedSlot slot && ofTenant tenantId slot).length

def maximumRetainedTerminalTurns : ℕ := 1000

/-- Keep the active turns and the newest terminal ones. -/
def pruneTerminalTurns (turns : FinMap TurnId TurnSlot) : FinMap TurnId TurnSlot :=
  let slots := turns.elems
  let retainedTerminal :=
    ((slots.filter fun slot => !slot.active).insertionSort fun a b =>
      b.turnSlotRecord.turnRecordCreatedAt ≤ a.turnSlotRecord.turnRecordCreatedAt).take
        maximumRetainedTerminalTurns
  .ofList (((slots.filter fun slot => slot.active) ++ retainedTerminal).map
    fun slot => (slot.turnSlotRecord.turnRecordId, slot))

inductive SubmitError
  | submitQueueFull
  | submitTenantQueueFull
  | submitSessionBusy
  | submitSupervisorClosed
  deriving DecidableEq

/-- How an admission ends: the caller's arguments do not fit each other, or the turn is refused. -/
inductive EnqueueError
  | failed (message : Text)
  | refused (error : SubmitError)
  deriving DecidableEq

def enqueueTurnRecord (config : SupervisorConfig) (reservationHeld : Bool) (spec : TurnSpec)
    (record : TurnRecord) (state : SupervisorState) :
    Except EnqueueError (TurnRecord × SupervisorState) :=
  if record.turnRecordSessionId ≠ spec.turnSpecSessionId then
    .error (.failed "reserved turn session does not match its specification".toList)
  else if record.turnRecordClientRequestId ≠ spec.turnSpecClientRequestId then
    .error (.failed "reserved turn client request does not match its specification".toList)
  else if record.turnRecordBoundary ≠ spec.turnSpecBoundary then
    .error (.failed "reserved turn boundary does not match its specification".toList)
  else if record.turnRecordStatus ≠ .turnQueued then
    .error (.failed "only a queued reserved turn can be admitted".toList)
  else
    let admitted := { record with turnRecordInput := spec.turnSpecPrompt }
    let reserved := decide (spec.key ∈ state.stateActiveSessions)
    let tenantId := spec.turnSpecBoundary.accessTenantId
    if state.stateClosed then .error (.refused .submitSupervisorClosed)
    else if reservationHeld && !reserved then .error (.refused .submitSessionBusy)
    else if (!reservationHeld && reserved) || sessionBusy spec.key state.stateTurns then
      .error (.refused .submitSessionBusy)
    else if state.stateQueue.length ≥ config.supervisorMaxQueuedTurns ∨
        queuedAttachmentBytes state.stateTurns + turnAttachmentBytes spec >
          maximumQueuedAttachmentBytes then
      .error (.refused .submitQueueFull)
    else if queuedForTenant tenantId state.stateTurns ≥
          config.supervisorMaxQueuedTurnsPerTenant ∨
        queuedAttachmentBytesForTenant tenantId state.stateTurns + turnAttachmentBytes spec >
          maximumQueuedAttachmentBytesPerTenant then
      .error (.refused .submitTenantQueueFull)
    else
      .ok (admitted, appendTurnEvent .turnQueued admitted.turnRecordId
        { state with
          stateQueue := state.stateQueue ++ [admitted.turnRecordId]
          stateTurns := (pruneTerminalTurns state.stateTurns).insert admitted.turnRecordId
            { turnSlotSpec := spec
              turnSlotRecord := admitted
              turnSlotCancelling := false } })

/-! ### Scheduling -/

/-- The workers whose turn is still kept, by the tenant of the turn. -/
def runningForTenant (tenantId : Text) (turns : FinMap TurnId TurnSlot)
    (workers : FinMap TurnId ℕ) : ℕ :=
  (workers.keys.filter fun turnId => (turns.lookup turnId).any (ofTenant tenantId)).length

/-- The turns of the queue that may run, with their tenants. -/
def eligibleTurns (config : SupervisorConfig) (state : SupervisorState) : List (TurnId × Text) :=
  state.stateQueue.filterMap fun turnId =>
    match state.stateTurns.lookup turnId with
    | none => none
    | some slot =>
        let tenantId := slot.turnSlotRecord.turnRecordBoundary.accessTenantId
        if slot.status = .turnQueued ∧ slot.turnSlotRecord.key ∉ state.stateActiveSessions ∧
            runningForTenant tenantId state.stateTurns state.stateWorkers <
              config.supervisorMaxConcurrentTurnsPerTenant then
          some (turnId, tenantId)
        else none

/-- The first eligible turn, of another tenant than the last one if there is such a turn. -/
def pickRunnable (config : SupervisorConfig) (state : SupervisorState) :
    Option (TurnId × List TurnId × Text) :=
  let eligible := eligibleTurns config state
  let preferred := eligible.filter fun entry => some entry.2 ≠ state.stateLastScheduledTenant
  let fallback := if preferred.isEmpty then eligible else []
  match preferred ++ fallback with
  | [] => none
  | (turnId, tenantId) :: _ =>
      some (turnId, state.stateQueue.filter (· ≠ turnId), tenantId)

/-- `retry` waits for another transaction. -/
inductive Runnable
  | closed
  | retry
  | reserved (turnId : TurnId) (spec : TurnSpec) (state : SupervisorState)

/-- Reserve the session of a turn that may run.  The payload of its specification is dropped from the
slot. -/
def reserveRunnable (config : SupervisorConfig) (state : SupervisorState) : Runnable :=
  if state.stateClosed then .closed
  else if state.stateWorkers.keys.length ≥ config.supervisorMaxConcurrentTurns then .retry
  else
    match pickRunnable config state with
    | none => .retry
    | some (turnId, remaining, tenantId) =>
        match state.stateTurns.lookup turnId with
        -- a turn that is picked has a slot
        | none => .retry
        | some slot =>
            .reserved turnId slot.turnSlotSpec
              { state with
                stateQueue := remaining
                stateTurns := state.stateTurns.insert turnId
                  { slot with
                    turnSlotRecord :=
                      { slot.turnSlotRecord with turnRecordStatus := .turnRunning }
                    turnSlotSpec :=
                      { slot.turnSlotSpec with
                        turnSpecPrompt := []
                        turnSpecImages := []
                        turnSpecFiles := [] } }
                stateActiveSessions :=
                  insert slot.turnSlotRecord.key state.stateActiveSessions
                stateLastScheduledTenant := some tenantId }

/-! ### Workers -/

/-- `spawnTrackedWorker` accepts the worker. -/
def acceptsWorker (turnId : TurnId) (spec : TurnSpec) (state : SupervisorState) : Bool :=
  match state.stateTurns.lookup turnId with
  | none => false
  | some slot =>
      !state.stateClosed && decide (slot.status = .turnRunning) &&
        decide (slot.turnSlotRecord.key = spec.key) && decide (spec.key ∈ state.stateActiveSessions)

def registerWorker (turnId : TurnId) (worker : ℕ) (state : SupervisorState) : SupervisorState :=
  { state with stateWorkers := state.stateWorkers.insert turnId worker }

/-- `none` where the turn is not to be started. -/
def markTurnStarted (now : UTCTime) (turnId : TurnId) (spec : TurnSpec)
    (state : SupervisorState) : Option SupervisorState :=
  match state.stateTurns.lookup turnId with
  | none => none
  | some slot =>
      if slot.status = .turnRunning ∧ slot.turnSlotCancelling = false ∧
          slot.turnSlotRecord.key = spec.key then
        some (appendTurnEvent .turnStarted turnId
          { state with
            stateTurns := state.stateTurns.insert turnId
              { slot with
                turnSlotRecord :=
                  { slot.turnSlotRecord with turnRecordStartedAt := some now } } })
      else none

/-- The transaction `finish` of `executeTurn`. -/
def finishWorker (turnId : TurnId) (spec : TurnSpec) (state : SupervisorState) :
    SupervisorState :=
  let cancellationOwnsTerminal := (state.stateTurns.lookup turnId).any (·.turnSlotCancelling)
  { state with
    stateWorkers := state.stateWorkers.delete turnId
    stateActiveSessions :=
      if cancellationOwnsTerminal then state.stateActiveSessions
      else state.stateActiveSessions.erase spec.key }

/-! ### The end of a turn -/

/-- The record that `finalizeTurn` ends, if it does not leave the turn to somebody else. -/
def finalizable (turnId : TurnId) (spec : TurnSpec) (state : SupervisorState) :
    Option TurnRecord :=
  match state.stateTurns.lookup turnId with
  | none => none
  | some slot =>
      if slot.turnSlotRecord.turnRecordBoundary = spec.turnSpecBoundary ∧
          slot.turnSlotCancelling = false ∧ slot.active = true then
        some slot.turnSlotRecord
      else none

def terminalEventType : TurnStatus → TurnEventType
  | .turnCompleted => .turnCompleted
  | .turnFailed => .turnFailed
  | .turnCancelled => .turnCancelled
  | _ => .turnFailed

def publishTerminalRecord (canonical : TurnRecord) (state : SupervisorState) : SupervisorState :=
  match state.stateTurns.lookup canonical.turnRecordId with
  | none => state
  | some slot =>
      if slot.turnSlotRecord = canonical then state
      else
        appendTurnEvent (terminalEventType canonical.turnRecordStatus) canonical.turnRecordId
          { state with
            stateTurns := state.stateTurns.insert canonical.turnRecordId
              { slot with turnSlotRecord := canonical, turnSlotCancelling := false }
            stateActiveSessions := state.stateActiveSessions.erase canonical.key }

/-- The record that `finalizeTurnStateOnly` ends. -/
def stateOnlyFinalizable (turnId : TurnId) (state : SupervisorState) : Option TurnRecord :=
  match state.stateTurns.lookup turnId with
  | none => none
  | some slot => if slot.turnSlotCancelling then none else some slot.turnSlotRecord

/-- The last transaction of `finalizeTurnStateOnly`. -/
def publishStateOnly (turnId : TurnId) (canonical : TurnRecord) (state : SupervisorState) :
    SupervisorState :=
  { state with
    stateTurns := state.stateTurns.adjust
      (fun slot => { slot with turnSlotRecord := canonical, turnSlotCancelling := false }) turnId }

/-! ### Cancellations -/

/-- What `cancelTurn` finds. -/
inductive Claim
  | refused (err : Text)
  /-- The turn is over. -/
  | ended (record : TurnRecord)
  /-- The turn is claimed, and these requests have lost their turn. -/
  | claimed (record : TurnRecord) (worker : Option ℕ) (inputs : List RequestId)
      (state : SupervisorState)

def claimCancellation (boundary : AccessBoundary) (turnId : TurnId) (state : SupervisorState) :
    Claim :=
  match state.stateTurns.lookup turnId with
  | none => .refused "turn not found".toList
  | some slot =>
      if slot.turnSlotRecord.turnRecordBoundary ≠ boundary then
        .refused "turn not found".toList
      else if slot.turnSlotCancelling then
        .refused "turn cancellation is in progress".toList
      else if slot.active then
        let ofTurn (request : HumanRequest) : Bool := decide (request.humanRequestTurnId = turnId)
        .claimed slot.turnSlotRecord (state.stateWorkers.lookup turnId)
          ((state.statePendingInputs.filter ofTurn).keys)
          { state with
            stateQueue := state.stateQueue.filter (· ≠ turnId)
            stateTurns := state.stateTurns.insert turnId { slot with turnSlotCancelling := true }
            statePendingInputs := state.statePendingInputs.filter fun request => !ofTurn request }
      else .ended slot.turnSlotRecord

def releaseCancellationClaim (record : TurnRecord) (state : SupervisorState) : SupervisorState :=
  { state with
    stateTurns := state.stateTurns.adjust
      (fun slot =>
        if slot.turnSlotCancelling ∧ slot.turnSlotRecord = record then
          { slot with turnSlotCancelling := false }
        else slot) record.turnRecordId }

/-- Register the task that cancels the turn, unless there is one. -/
def registerCancellationTask (turnId : TurnId) (task : ℕ) (state : SupervisorState) :
    Option SupervisorState :=
  if state.stateClosed then none
  else
    match state.stateCancellationTasks.lookup turnId with
    | some _ => none
    | none =>
        some { state with
          stateCancellationTasks := state.stateCancellationTasks.insert turnId task }

def deleteCancellationTaskIfOwned (turnId : TurnId) (task : ℕ) (state : SupervisorState) :
    SupervisorState :=
  match state.stateCancellationTasks.lookup turnId with
  | none => state
  | some registered =>
      if registered = task then
        { state with stateCancellationTasks := state.stateCancellationTasks.delete turnId }
      else state

/-- The first transaction of `closeSupervisor`: every active turn is being cancelled. -/
def closeState (state : SupervisorState) : SupervisorState :=
  { state with
    stateClosed := true
    stateQueue := []
    stateTurns := state.stateTurns.map fun slot =>
      if slot.active then { slot with turnSlotCancelling := true } else slot
    stateCancellationTasks := .empty
    statePendingInputs := .empty }

/-! ### Human input -/

def currentTurnRecord (turnId : TurnId) (state : SupervisorState) : Except Text TurnRecord :=
  match state.stateTurns.lookup turnId with
  | none => .error "turn not found".toList
  | some slot =>
      if slot.turnSlotCancelling || !slot.active then
        .error "turn is no longer running".toList
      else .ok slot.turnSlotRecord

/-- The first transaction of `installAndWait`. -/
def installInput (request : HumanRequest) (state : SupervisorState) :
    Except Text SupervisorState :=
  match state.stateTurns.lookup request.humanRequestTurnId with
  | none => .error "turn not found".toList
  | some slot =>
      if slot.turnSlotCancelling || !slot.active then
        .error "turn is no longer running".toList
      else
        .ok (appendTurnEvent (.requestCreated request.humanRequestId) request.humanRequestTurnId
          { state with
            statePendingInputs := state.statePendingInputs.insert request.humanRequestId request
            stateTurns := state.stateTurns.insert request.humanRequestTurnId
              { slot with
                turnSlotRecord :=
                  { slot.turnSlotRecord with turnRecordStatus := .turnWaitingForInput } } })

def resumeWaitingTurn (slot : TurnSlot) : TurnSlot :=
  if slot.status = .turnWaitingForInput then
    { slot with
      turnSlotRecord := { slot.turnSlotRecord with turnRecordStatus := .turnRunning } }
  else slot

/-- `completePendingInputInState`. -/
def completePendingInput (requestId : RequestId) (state : SupervisorState) :
    Option (HumanRequest × SupervisorState) :=
  match state.statePendingInputs.lookup requestId with
  | none => none
  | some request =>
      some (request,
        appendTurnEvent (.requestResolved requestId) request.humanRequestTurnId
          { state with
            statePendingInputs := state.statePendingInputs.delete requestId
            stateTurns := state.stateTurns.adjust resumeWaitingTurn request.humanRequestTurnId })

/-- `publishTurnEvent`, which a runner emits events with. -/
def publishTurnEvent (key : SessionKey) (turnId : TurnId) (eventType : Text)
    (state : SupervisorState) : SupervisorState :=
  match state.stateTurns.lookup turnId with
  | none => state
  | some slot =>
      if state.stateClosed = false ∧ slot.turnSlotCancelling = false ∧
          slot.turnSlotRecord.key = key ∧ slot.active = true then
        appendTurnEvent (.emitted eventType) turnId state
      else state

end Server
end HaskellAgent
