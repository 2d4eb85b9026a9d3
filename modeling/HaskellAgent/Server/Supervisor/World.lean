import HaskellAgent.Lib.Machine
import HaskellAgent.Server.Supervisor.State

/-!
# The threads of the supervisor

A supervisor has a dispatcher, a worker for each turn that runs, and a monitor that cancels turns;
clients submit and cancel turns, change sessions and answer questions; at the end somebody closes it.
All of these interleave between any two of their transactions.

What lies outside is left open: the runner of the turns and the actions under a reservation do what
they like, the boundary guard fails when it likes, and any thread that may be interrupted may be so
at any time.  The store answers as its kind allows, and it may fail to.
-/

namespace HaskellAgent
namespace Server

/-! ### Persistence -/

/-- A kind of store for turns and requests. -/
structure TurnPersistence where
  /-- The last record is an answer of `turnPersistenceTerminal` when the first one is what has been
  answered for the turn before. -/
  terminal : Option TurnRecord → TurnRecord → UTCTime → TurnTerminalOutcome → TurnRecord → Bool
  endOf : ∀ {first record finishedAt outcome canonical},
    terminal first record finishedAt outcome canonical = true → EndOf record canonical
  /-- Requests are kept in the store. -/
  durableRequests : Bool

/-- The first terminal record that is committed is the answer to every later caller. -/
def TurnPersistence.FirstWriterWins (persistence : TurnPersistence) : Prop :=
  ∀ {first record finishedAt outcome canonical},
    persistence.terminal (some first) record finishedAt outcome canonical = true →
      canonical = first

def inMemoryTurnPersistence : TurnPersistence where
  terminal _ record finishedAt outcome canonical :=
    decide (canonical = terminalRecord finishedAt outcome record)
  endOf h := of_decide_eq_true h ▸ terminalRecord_endOf _ _ _
  durableRequests := false

instance (record canonical : TurnRecord) : Decidable (EndOf record canonical) :=
  decidable_of_iff (canonical.turnRecordId = record.turnRecordId ∧ canonical.key = record.key ∧
    canonical.active = false) ⟨fun ⟨h₁, h₂, h₃⟩ => ⟨h₁, h₂, h₃⟩, fun ⟨h₁, h₂, h₃⟩ => ⟨h₁, h₂, h₃⟩⟩

/-- A store that commits any terminal record of a turn once. -/
def firstWriterPersistence : TurnPersistence where
  terminal first record _ _ canonical :=
    decide (EndOf record canonical) && first.all (· = canonical)
  endOf h := of_decide_eq_true (Bool.and_eq_true _ _ ▸ h).1
  durableRequests := true

/-! ### Threads -/

inductive Dispatcher
  | choosing
  /-- It has reserved the turn, and is about to hand it to a worker. -/
  | reserved (turnId : TurnId) (spec : TurnSpec)
  | stopped
  deriving DecidableEq

inductive WorkerPhase
  | entering
  /-- Inside the boundary guard, from here to `leaving`. -/
  | looking
  | starting (record : TurnRecord)
  | marking
  | marked
  /-- Inside `supervisorRunner`. -/
  | running
  | finalizing (outcome : TurnTerminalOutcome)
  | persisting (record : TurnRecord) (outcome : TurnTerminalOutcome)
  | publishing (canonical : TurnRecord)
  | leaving
  /-- The guard has failed, and so it goes on with `finalizeTurnStateOnly`. -/
  | failing (err : Text)
  | failingPersist (record : TurnRecord) (err : Text)
  | failingWrite (canonical : TurnRecord)
  /-- Before the transaction `finish`. -/
  | finishing
  deriving DecidableEq

structure Worker where
  turnId : TurnId
  spec : TurnSpec
  phase : WorkerPhase
  deriving DecidableEq

inductive CancelPhase
  | claiming
  /-- It has claimed the turn with this record, and runs its hook. -/
  | interrupting (record : TurnRecord) (worker : Option ℕ)
  /-- It stops the worker; a doomed one then gives up. -/
  | stopping (record : TurnRecord) (worker : Option ℕ) (doomed : Bool)
  | persisting (record : TurnRecord)
  | publishing (canonical : TurnRecord)
  | releasing (record : TurnRecord)
  deriving DecidableEq

/-- A call of `cancelTurn`. -/
structure Cancellation where
  turnId : TurnId
  boundary : AccessBoundary
  /-- It is a task of the monitor. -/
  task : Bool
  phase : CancelPhase
  deriving DecidableEq

inductive WaiterPhase
  | creating
  | installing
  | waiting
  /-- The poll has timed out, and the store is asked. -/
  | loading
  | completing (response : HumanResponse)
  | returned (result : Except Text HumanResponse)
  | interrupted
  deriving DecidableEq

/-- A call of `requestTurnInput`. -/
structure Waiter where
  request : HumanRequest
  phase : WaiterPhase
  deriving DecidableEq

inductive ResolverPhase
  | durable
  /-- With the request that the store has resolved, if it has. -/
  | localOnly (durableRequest : Option HumanRequest)
  deriving DecidableEq

/-- A call of `resolveHumanRequest`. -/
structure Resolver where
  boundary : AccessBoundary
  requestId : RequestId
  response : HumanResponse
  phase : ResolverPhase
  deriving DecidableEq

/-- The thread in `closeSupervisor`. -/
inductive Closer
  | absent
  | stopping (workers tasks : List ℕ) (replies : List RequestId) (records : List TurnRecord)
  | persisting (pending done : List TurnRecord)
  | publishing (canonicals : List TurnRecord)
  | done
  deriving DecidableEq

/-- What the store keeps about a request. -/
inductive RequestRow
  | unresolved (request : HumanRequest)
  | resolved (request : HumanRequest) (response : HumanResponse)
  | consumed
  deriving DecidableEq

structure World where
  state : SupervisorState
  dispatcher : Dispatcher
  workers : FinMap ℕ Worker
  /-- The number of the next worker thread. -/
  workerThreads : ℕ
  cancellations : FinMap ℕ Cancellation
  /-- The calls of `withSessionReservation` whose action runs. -/
  reservations : FinMap ℕ SessionKey
  waiters : FinMap RequestId Waiter
  resolvers : FinMap ℕ Resolver
  /-- What the reply variables of the requests hold. -/
  replies : FinMap RequestId (Except Text HumanResponse)
  closer : Closer
  rows : FinMap RequestId RequestRow
  /-- What the store has answered first as the end of each turn. -/
  committed : FinMap TurnId TurnRecord
  /-- History: the session of each turn that was ever admitted. -/
  admitted : FinMap TurnId SessionKey
  /-- History: the turns that `supervisorRunner` was started for. -/
  runnerStarts : List TurnId
  /-- History: the answers that `resolveHumanRequest` has accepted. -/
  accepted : List (RequestId × HumanResponse)

def World.init : World where
  state := .init
  dispatcher := .choosing
  workers := .empty
  workerThreads := 0
  cancellations := .empty
  reservations := .empty
  waiters := .empty
  resolvers := .empty
  replies := .empty
  closer := .absent
  rows := .empty
  committed := .empty
  admitted := .empty
  runnerStarts := []
  accepted := []

inductive SupervisorEvent
  /-- `withSessionReservation` takes the session, and its action begins. -/
  | acquire (r : ℕ) (key : SessionKey) (waitForReservation : Bool)
  | release (r : ℕ)
  /-- `submitTurn`. -/
  | submit (spec : TurnSpec) (turnId : TurnId) (now : UTCTime)
  /-- The admission inside a reservation, of the checked submissions. -/
  | submitReserved (r : ℕ) (spec : TurnSpec) (record : TurnRecord)
  | dispatch
  /-- `spawnTrackedWorker`, with a new thread. -/
  | spawn (i : ℕ)
  | stopDispatcher
  | enter (i : ℕ)
  | guardFails (i : ℕ) (err : Text)
  | lookUp (i : ℕ)
  /-- `turnPersistenceStarted` returns, with an error if there is one. -/
  | persistStart (i : ℕ) (err : Option Text)
  | markStarted (i : ℕ) (now : UTCTime)
  | startRunner (i : ℕ)
  /-- The runner returns an outcome that is not a cancellation. -/
  | endRunner (i : ℕ) (err : Option Text)
  | emit (turnId : TurnId) (eventType : Text)
  | readFinal (i : ℕ)
  | persistFinal (i : ℕ) (finishedAt : UTCTime) (canonical : TurnRecord)
  | publishFinal (i : ℕ)
  | leave (i : ℕ)
  | readStateOnly (i : ℕ)
  | persistStateOnly (i : ℕ) (finishedAt : UTCTime) (canonical : TurnRecord)
  | writeStateOnly (i : ℕ)
  | finish (i : ℕ)
  /-- A call of `cancelTurn` begins. -/
  | cancel (c : ℕ) (boundary : AccessBoundary) (turnId : TurnId)
  /-- The monitor spawns a task that cancels the turn. -/
  | spawnTask (c : ℕ) (boundary : AccessBoundary) (turnId : TurnId)
  | claim (c : ℕ)
  | endHook (c : ℕ)
  /-- The worker takes the exception that stops it. -/
  | killWorker (c : ℕ)
  /-- The worker has stopped. -/
  | joinWorker (c : ℕ)
  | persistCancel (c : ℕ) (finishedAt : UTCTime) (canonical : TurnRecord)
  | publishCancel (c : ℕ)
  /-- An exception reaches the call. -/
  | interruptCancel (c : ℕ)
  | releaseClaim (c : ℕ)
  /-- `requestTurnInput`, up to its look at the turn. -/
  | requestInput (q : RequestId) (turnId : TurnId) (options : List Text) (now : UTCTime)
  /-- `turnPersistenceCreateHumanRequest` returns, with an error if there is one. -/
  | createRequest (q : RequestId) (err : Option Text)
  | install (q : RequestId)
  | takeReply (q : RequestId)
  | pollTimesOut (q : RequestId)
  /-- The poll times out after its transaction has taken the reply. -/
  | loseReply (q : RequestId)
  | load (q : RequestId)
  | loadFails (q : RequestId) (err : Text)
  | complete (q : RequestId)
  | interruptWaiter (q : RequestId)
  | cleanUp (q : RequestId)
  | resolve (s : ℕ) (boundary : AccessBoundary) (q : RequestId) (response : HumanResponse)
  | resolveDurably (s : ℕ)
  /-- The store returns an error, and may have resolved the request all the same. -/
  | resolveFails (s : ℕ) (committed : Bool)
  | resolveLocally (s : ℕ)
  | close
  | closeReply
  | closeKillWorker (i : ℕ)
  | closeKillTask (c : ℕ)
  | closeStopped
  | closePersist (record : TurnRecord) (finishedAt : UTCTime) (canonical : TurnRecord)
  | closePersisted
  | closeTimesOut
  | closePublish
  | abortClose
  deriving DecidableEq

/-! ### Sessions, admission and dispatch -/

def World.acquire (w : World) (r : ℕ) (key : SessionKey) (waitForReservation : Bool) :
    Option World :=
  match w.reservations.lookup r, acquireSession waitForReservation key w.state with
  | none, some (.ok state) =>
      some { w with state := state, reservations := w.reservations.insert r key }
  | _, _ => none

def World.release (w : World) (r : ℕ) : Option World :=
  match w.reservations.lookup r with
  | none => none
  | some key =>
      some { w with
        state := releaseSession key w.state
        reservations := w.reservations.delete r }

def World.admitTurn (w : World) (config : SupervisorConfig) (reservationHeld : Bool)
    (spec : TurnSpec) (record : TurnRecord) : Option World :=
  match enqueueTurnRecord config reservationHeld spec record w.state with
  | .error _ => none
  | .ok (admitted, state) =>
      some { w with
        state := state
        admitted := w.admitted.insert admitted.turnRecordId admitted.key }

/-- The record that `submitTurn` and `enqueueTurn` make. -/
def newTurnRecord (spec : TurnSpec) (turnId : TurnId) (now : UTCTime) : TurnRecord where
  turnRecordId := turnId
  turnRecordSessionId := spec.turnSpecSessionId
  turnRecordClientRequestId := spec.turnSpecClientRequestId
  turnRecordBoundary := spec.turnSpecBoundary
  turnRecordStatus := .turnQueued
  turnRecordCreatedAt := now
  turnRecordStartedAt := none
  turnRecordFinishedAt := none
  turnRecordError := none
  turnRecordInput := spec.turnSpecPrompt

def World.submitReserved (w : World) (config : SupervisorConfig) (r : ℕ) (spec : TurnSpec)
    (record : TurnRecord) : Option World :=
  match w.reservations.lookup r with
  | none => none
  | some key => if spec.key = key then w.admitTurn config true spec record else none

def World.dispatch (w : World) (config : SupervisorConfig) : Option World :=
  match w.dispatcher with
  | .choosing =>
      match reserveRunnable config w.state with
      | .closed => some { w with dispatcher := .stopped }
      | .retry => none
      | .reserved turnId spec state =>
          some { w with state := state, dispatcher := .reserved turnId spec }
  | _ => none

/-- A rejected worker is cancelled before it has done anything. -/
def World.spawn (w : World) (i : ℕ) : Option World :=
  match w.dispatcher with
  | .reserved turnId spec =>
      if i ≠ w.workerThreads then none
      else if acceptsWorker turnId spec w.state then
        some { w with
          state := registerWorker turnId i w.state
          workers := w.workers.insert i ⟨turnId, spec, .entering⟩
          workerThreads := i + 1
          dispatcher := .choosing }
      else some { w with dispatcher := .choosing }
  | _ => none

/-- A closed supervisor stops its dispatcher at any point. -/
def World.stopDispatcher (w : World) : Option World :=
  if w.state.stateClosed then some { w with dispatcher := .stopped } else none

/-! ### Workers -/

def World.setWorker (w : World) (i : ℕ) (worker : Worker) (phase : WorkerPhase) : World :=
  { w with workers := w.workers.insert i { worker with phase := phase } }

def World.workerStep (w : World) (i : ℕ) (next : Worker → Option World) : Option World :=
  match w.workers.lookup i with
  | none => none
  | some worker => next worker

/-- The boundary guard holds the worker's action. -/
def WorkerPhase.guarded : WorkerPhase → Bool
  | .looking | .starting _ | .marking | .marked | .running | .finalizing _ | .persisting _ _
  | .publishing _ | .leaving => true
  | .entering | .failing _ | .failingPersist _ _ | .failingWrite _ | .finishing => false

def World.enter (w : World) (i : ℕ) (worker : Worker) : Option World :=
  match worker.phase with
  | .entering => some (w.setWorker i worker .looking)
  | _ => none

def World.guardFails (w : World) (i : ℕ) (err : Text) (worker : Worker) : Option World :=
  if worker.phase.guarded ∨ worker.phase = .entering then
    some (w.setWorker i worker (.failing err))
  else none

/-- `lookupTurn`. -/
def World.lookUp (w : World) (i : ℕ) (worker : Worker) : Option World :=
  match worker.phase with
  | .looking =>
      match w.state.stateTurns.lookup worker.turnId with
      | none => some (w.setWorker i worker .leaving)
      | some slot =>
          if slot.turnSlotRecord.turnRecordBoundary = worker.spec.turnSpecBoundary then
            some (w.setWorker i worker (.starting slot.turnSlotRecord))
          else some (w.setWorker i worker .leaving)
  | _ => none

def World.persistStart (w : World) (i : ℕ) (err : Option Text) (worker : Worker) :
    Option World :=
  match worker.phase, err with
  | .starting _, none => some (w.setWorker i worker .marking)
  | .starting _, some err =>
      some (w.setWorker i worker (.finalizing
        (.turnErrored ("could not persist turn start: ".toList ++ err))))
  | _, _ => none

def World.markStarted (w : World) (i : ℕ) (now : UTCTime) (worker : Worker) : Option World :=
  match worker.phase with
  | .marking =>
      match markTurnStarted now worker.turnId worker.spec w.state with
      | none => some (w.setWorker i worker .leaving)
      | some state => some ({ w with state := state }.setWorker i worker .marked)
  | _ => none

def World.startRunner (w : World) (i : ℕ) (worker : Worker) : Option World :=
  match worker.phase with
  | .marked =>
      some ({ w with runnerStarts := w.runnerStarts ++ [worker.turnId] }.setWorker i worker
        .running)
  | _ => none

def World.endRunner (w : World) (i : ℕ) (err : Option Text) (worker : Worker) : Option World :=
  match worker.phase with
  | .running =>
      some (w.setWorker i worker (.finalizing
        (match err with
        | none => .turnSucceeded
        | some err => .turnErrored err)))
  | _ => none

/-- The session of a turn whose runner was started.  What is left of the runner may call back at any
time. -/
def World.control (w : World) (turnId : TurnId) : Option SessionKey :=
  if turnId ∈ w.runnerStarts then w.admitted.lookup turnId else none

def World.emit (w : World) (turnId : TurnId) (eventType : Text) : Option World :=
  match w.control turnId with
  | none => none
  | some key => some { w with state := publishTurnEvent key turnId eventType w.state }

def World.readFinal (w : World) (i : ℕ) (worker : Worker) : Option World :=
  match worker.phase with
  | .finalizing outcome =>
      match finalizable worker.turnId worker.spec w.state with
      | none => some (w.setWorker i worker .leaving)
      | some record => some (w.setWorker i worker (.persisting record outcome))
  | _ => none

/-- The store answers; it goes on answering what it has answered first. -/
def World.commit (w : World) (canonical : TurnRecord) : World :=
  match w.committed.lookup canonical.turnRecordId with
  | some _ => w
  | none => { w with committed := w.committed.insert canonical.turnRecordId canonical }

def World.answers (w : World) (persistence : TurnPersistence) (record : TurnRecord)
    (finishedAt : UTCTime) (outcome : TurnTerminalOutcome) (canonical : TurnRecord) : Bool :=
  persistence.terminal (w.committed.lookup record.turnRecordId) record finishedAt outcome canonical

def World.persistFinal (w : World) (persistence : TurnPersistence) (i : ℕ)
    (finishedAt : UTCTime) (canonical : TurnRecord) (worker : Worker) : Option World :=
  match worker.phase with
  | .persisting record outcome =>
      if w.answers persistence record finishedAt outcome canonical then
        some ((w.commit canonical).setWorker i worker (.publishing canonical))
      else none
  | _ => none

def World.publishFinal (w : World) (i : ℕ) (worker : Worker) : Option World :=
  match worker.phase with
  | .publishing canonical =>
      some ({ w with state := publishTerminalRecord canonical w.state }.setWorker i worker
        .leaving)
  | _ => none

def World.leave (w : World) (i : ℕ) (worker : Worker) : Option World :=
  match worker.phase with
  | .leaving => some (w.setWorker i worker .finishing)
  | _ => none

def World.readStateOnly (w : World) (i : ℕ) (worker : Worker) : Option World :=
  match worker.phase with
  | .failing err =>
      match stateOnlyFinalizable worker.turnId w.state with
      | none => some (w.setWorker i worker .finishing)
      | some record => some (w.setWorker i worker (.failingPersist record err))
  | _ => none

def World.persistStateOnly (w : World) (persistence : TurnPersistence) (i : ℕ)
    (finishedAt : UTCTime) (canonical : TurnRecord) (worker : Worker) : Option World :=
  match worker.phase with
  | .failingPersist record err =>
      if w.answers persistence record finishedAt (.turnErrored err) canonical then
        some ((w.commit canonical).setWorker i worker (.failingWrite canonical))
      else none
  | _ => none

def World.writeStateOnly (w : World) (i : ℕ) (worker : Worker) : Option World :=
  match worker.phase with
  | .failingWrite canonical =>
      some ({ w with state := publishStateOnly worker.turnId canonical w.state }.setWorker i worker
        .finishing)
  | _ => none

def World.finish (w : World) (i : ℕ) (worker : Worker) : Option World :=
  match worker.phase with
  | .finishing =>
      some { w with
        state := finishWorker worker.turnId worker.spec w.state
        workers := w.workers.delete i }
  | _ => none

/-- The exception that stops a worker: it goes to its last transaction. -/
def World.kill (w : World) (i : ℕ) : Option World :=
  match w.workers.lookup i with
  | none => none
  | some worker => some (w.setWorker i worker .finishing)

/-! ### Cancellations -/

def World.setCancel (w : World) (c : ℕ) (cancellation : Cancellation) (phase : CancelPhase) :
    World :=
  { w with cancellations := w.cancellations.insert c { cancellation with phase := phase } }

def World.cancelStep (w : World) (c : ℕ) (next : Cancellation → Option World) : Option World :=
  match w.cancellations.lookup c with
  | none => none
  | some cancellation => next cancellation

/-- The call returns; a task removes itself. -/
def World.endCancel (w : World) (c : ℕ) (cancellation : Cancellation) : World :=
  { w with
    state :=
      if cancellation.task then deleteCancellationTaskIfOwned cancellation.turnId c w.state
      else w.state
    cancellations := w.cancellations.delete c }

def World.cancel (w : World) (c : ℕ) (boundary : AccessBoundary) (turnId : TurnId) :
    Option World :=
  match w.cancellations.lookup c with
  | some _ => none
  | none =>
      some { w with
        cancellations := w.cancellations.insert c ⟨turnId, boundary, false, .claiming⟩ }

def World.spawnTask (w : World) (c : ℕ) (boundary : AccessBoundary) (turnId : TurnId) :
    Option World :=
  match w.cancellations.lookup c, registerCancellationTask turnId c w.state with
  | none, some state =>
      some { w with
        state := state
        cancellations := w.cancellations.insert c ⟨turnId, boundary, true, .claiming⟩ }
  | _, _ => none

/-- Put an answer into the reply variables that are empty. -/
def putReplies (answer : Except Text HumanResponse) (requests : List RequestId)
    (replies : FinMap RequestId (Except Text HumanResponse)) :
    FinMap RequestId (Except Text HumanResponse) :=
  requests.foldl (fun replies q =>
    match replies.lookup q with
    | some _ => replies
    | none => replies.insert q answer) replies

def World.claim (w : World) (c : ℕ) (cancellation : Cancellation) : Option World :=
  match cancellation.phase with
  | .claiming =>
      match claimCancellation cancellation.boundary cancellation.turnId w.state with
      | .refused _ => some (w.endCancel c cancellation)
      | .ended _ => some (w.endCancel c cancellation)
      | .claimed record worker inputs state =>
          some ({ w with
            state := state
            replies := putReplies (.error "turn cancelled".toList) inputs w.replies }.setCancel c
              cancellation (.interrupting record worker))
  | _ => none

def World.endHook (w : World) (c : ℕ) (cancellation : Cancellation) : Option World :=
  match cancellation.phase with
  | .interrupting record worker => some (w.setCancel c cancellation (.stopping record worker false))
  | _ => none

def World.killWorker (w : World) (cancellation : Cancellation) : Option World :=
  match cancellation.phase with
  | .stopping _ (some i) _ => w.kill i
  | _ => none

/-- The worker is there no more, or there was none. -/
def World.stoppedWorker (w : World) (worker : Option ℕ) : Bool :=
  worker.all fun i => (w.workers.lookup i).isNone

def World.joinWorker (w : World) (c : ℕ) (cancellation : Cancellation) : Option World :=
  match cancellation.phase with
  | .stopping record worker doomed =>
      if w.stoppedWorker worker then
        some (w.setCancel c cancellation
          (if doomed then .releasing record else .persisting record))
      else none
  | _ => none

def World.persistCancel (w : World) (persistence : TurnPersistence) (c : ℕ)
    (finishedAt : UTCTime) (canonical : TurnRecord) (cancellation : Cancellation) :
    Option World :=
  match cancellation.phase with
  | .persisting record =>
      if w.answers persistence record finishedAt .turnWasCancelled canonical then
        some ((w.commit canonical).setCancel c cancellation (.publishing canonical))
      else none
  | _ => none

def World.publishCancel (w : World) (c : ℕ) (cancellation : Cancellation) : Option World :=
  match cancellation.phase with
  | .publishing canonical =>
      some ({ w with state := publishTerminalRecord canonical w.state }.endCancel c cancellation)
  | _ => none

/-- An exception: a call that has claimed its turn gives up, and one that runs the hook stops the
worker before. -/
def World.interruptCancel (w : World) (c : ℕ) (cancellation : Cancellation) : Option World :=
  match cancellation.phase with
  | .claiming => some (w.endCancel c cancellation)
  | .interrupting record worker => some (w.setCancel c cancellation (.stopping record worker true))
  | .stopping record _ _ => some (w.setCancel c cancellation (.releasing record))
  | .persisting record => some (w.setCancel c cancellation (.releasing record))
  | .publishing _ => none
  | .releasing _ => none

def World.releaseClaim (w : World) (c : ℕ) (cancellation : Cancellation) : Option World :=
  match cancellation.phase with
  | .releasing record =>
      some ({ w with state := releaseCancellationClaim record w.state }.endCancel c cancellation)
  | _ => none

/-! ### Human input -/

def World.setWaiter (w : World) (q : RequestId) (waiter : Waiter) (phase : WaiterPhase) : World :=
  { w with waiters := w.waiters.insert q { waiter with phase := phase } }

def World.waiterStep (w : World) (q : RequestId) (next : Waiter → Option World) : Option World :=
  match w.waiters.lookup q with
  | none => none
  | some waiter => next waiter

/-- A turn that may not ask gets an error at once, and nothing else happens. -/
def World.requestInput (w : World) (q : RequestId) (turnId : TurnId) (options : List Text)
    (now : UTCTime) : Option World :=
  match w.waiters.lookup q, w.control turnId, currentTurnRecord turnId w.state with
  | none, some key, .ok _ =>
      some { w with
        waiters := w.waiters.insert q
          ⟨{ humanRequestId := q
             humanRequestTurnId := turnId
             humanRequestSessionId := key.2
             humanRequestBoundary := key.1
             humanRequestOptions := options
             humanRequestCreatedAt := now }, .creating⟩ }
  | _, _, _ => none

def World.createRequest (w : World) (persistence : TurnPersistence) (q : RequestId)
    (err : Option Text) (waiter : Waiter) : Option World :=
  match waiter.phase, err with
  | .creating, some err => some (w.setWaiter q waiter (.returned (.error err)))
  | .creating, none =>
      some ({ w with
        rows :=
          if persistence.durableRequests then w.rows.insert q (.unresolved waiter.request)
          else w.rows }.setWaiter q waiter .installing)
  | _, _ => none

def World.install (w : World) (q : RequestId) (waiter : Waiter) : Option World :=
  match waiter.phase with
  | .installing =>
      match installInput waiter.request w.state with
      | .error err => some (w.setWaiter q waiter (.returned (.error err)))
      | .ok state => some ({ w with state := state }.setWaiter q waiter .waiting)
  | _ => none

def World.takeReply (w : World) (q : RequestId) (waiter : Waiter) : Option World :=
  match waiter.phase, w.replies.lookup q with
  | .waiting, some reply =>
      some ({ w with replies := w.replies.delete q }.setWaiter q waiter (.returned reply))
  | _, _ => none

def World.pollTimesOut (w : World) (q : RequestId) (waiter : Waiter) : Option World :=
  match waiter.phase with
  | .waiting => some (w.setWaiter q waiter .loading)
  | _ => none

def World.loseReply (w : World) (q : RequestId) (waiter : Waiter) : Option World :=
  match waiter.phase, w.replies.lookup q with
  | .waiting, some _ =>
      some ({ w with replies := w.replies.delete q }.setWaiter q waiter .loading)
  | _, _ => none

/-- `turnPersistenceLoadHumanResponse`: the answer of a resolved request. -/
def World.load (w : World) (q : RequestId) (waiter : Waiter) : Option World :=
  match waiter.phase with
  | .loading =>
      match w.rows.lookup q with
      | some (.resolved _ response) => some (w.setWaiter q waiter (.completing response))
      | _ => some (w.setWaiter q waiter .waiting)
  | _ => none

def World.loadFails (w : World) (q : RequestId) (err : Text) (waiter : Waiter) : Option World :=
  match waiter.phase with
  | .loading => some (w.setWaiter q waiter (.returned (.error err)))
  | _ => none

def World.complete (w : World) (q : RequestId) (waiter : Waiter) : Option World :=
  match waiter.phase with
  | .completing response =>
      match completePendingInput q w.state with
      | none =>
          some (w.setWaiter q waiter
            (.returned (.error "turn is no longer waiting for input".toList)))
      | some (_, state) =>
          some ({ w with state := state }.setWaiter q waiter (.returned (.ok response)))
  | _ => none

/-- The call has ended. -/
def WaiterPhase.ended : WaiterPhase → Bool
  | .returned _ | .interrupted => true
  | .creating | .installing | .waiting | .loading | .completing _ => false

def World.interruptWaiter (w : World) (q : RequestId) (waiter : Waiter) : Option World :=
  if waiter.phase.ended then none else some (w.setWaiter q waiter .interrupted)

/-- The clean-up reaches the store: an answer is consumed, and a request that failed abandoned. -/
def World.cleanUp (w : World) (q : RequestId) (waiter : Waiter) : Option World :=
  match waiter.phase, w.rows.lookup q with
  | .returned (.ok _), some (.resolved _ _) => some { w with rows := w.rows.insert q .consumed }
  | .returned (.error _), some (.unresolved _) => some { w with rows := w.rows.delete q }
  | .interrupted, some (.unresolved _) => some { w with rows := w.rows.delete q }
  | _, _ => none

def World.resolverStep (w : World) (s : ℕ) (next : Resolver → Option World) : Option World :=
  match w.resolvers.lookup s with
  | none => none
  | some resolver => next resolver

def World.resolve (w : World) (persistence : TurnPersistence) (s : ℕ) (boundary : AccessBoundary)
    (q : RequestId) (response : HumanResponse) : Option World :=
  match w.resolvers.lookup s with
  | some _ => none
  | none =>
      some { w with
        resolvers := w.resolvers.insert s ⟨boundary, q, response,
          if persistence.durableRequests then .durable else .localOnly none⟩ }

/-- What `turnPersistenceResolveHumanRequest` resolves: the request, unless it is not there, of
another boundary, resolved already, or does not allow the answer. -/
def resolvableRequest (boundary : AccessBoundary) (response : HumanResponse) :
    Option RequestRow → Option HumanRequest
  | some (.unresolved request) =>
      if request.humanRequestBoundary = boundary ∧
          validHumanAnswer request.humanRequestOptions response.humanResponseDecision = true then
        some request
      else none
  | _ => none

/-- A call that the store refuses returns an error. -/
def World.resolveDurably (w : World) (s : ℕ) (resolver : Resolver) : Option World :=
  match resolver.phase with
  | .durable =>
      match resolvableRequest resolver.boundary resolver.response
        (w.rows.lookup resolver.requestId) with
      | none => some { w with resolvers := w.resolvers.delete s }
      | some request =>
          some { w with
            rows := w.rows.insert resolver.requestId (.resolved request resolver.response)
            resolvers := w.resolvers.insert s
              { resolver with phase := .localOnly (some request) } }
  | _ => none

def World.resolveFails (w : World) (s : ℕ) (committed : Bool) (resolver : Resolver) :
    Option World :=
  match resolver.phase with
  | .durable =>
      match resolvableRequest resolver.boundary resolver.response
        (w.rows.lookup resolver.requestId) with
      | none => some { w with resolvers := w.resolvers.delete s }
      | some request =>
          some { w with
            rows :=
              if committed then
                w.rows.insert resolver.requestId (.resolved request resolver.response)
              else w.rows
            resolvers := w.resolvers.delete s }
  | _ => none

/-- The call returns `Right`. -/
def World.accept (w : World) (s : ℕ) (resolver : Resolver) : World :=
  { w with
    resolvers := w.resolvers.delete s
    accepted := w.accepted ++ [(resolver.requestId, resolver.response)] }

/-- The local half of `resolveHumanRequest`. -/
def World.resolveLocally (w : World) (s : ℕ) (resolver : Resolver) : Option World :=
  match resolver.phase with
  | .durable => none
  | .localOnly durableRequest =>
      match w.state.statePendingInputs.lookup resolver.requestId with
      | none =>
          match durableRequest with
          | none => some { w with resolvers := w.resolvers.delete s }
          | some _ => some (w.accept s resolver)
      | some pending =>
          if pending.humanRequestBoundary ≠ resolver.boundary ∨
              (durableRequest = none ∧
                validHumanAnswer pending.humanRequestOptions
                  resolver.response.humanResponseDecision = false) then
            some { w with resolvers := w.resolvers.delete s }
          else
            match w.replies.lookup resolver.requestId with
            | some _ => some { w with resolvers := w.resolvers.delete s }
            | none =>
                match completePendingInput resolver.requestId w.state with
                | none => some { w with resolvers := w.resolvers.delete s }
                | some (_, state) =>
                    some ({ w with
                      state := state
                      replies := w.replies.insert resolver.requestId
                        (.ok resolver.response) }.accept s resolver)

/-! ### Shutdown -/

/-- `closeSupervisor` begins. -/
def World.close (w : World) : Option World :=
  if w.state.stateClosed then none
  else
    some { w with
      state := closeState w.state
      closer := .stopping w.state.stateWorkers.elems w.state.stateCancellationTasks.elems
        w.state.statePendingInputs.keys
        ((w.state.stateTurns.elems.filter fun slot => slot.active).map (·.turnSlotRecord)) }

def World.closeReply (w : World) : Option World :=
  match w.closer with
  | .stopping workers tasks (q :: replies) records =>
      some { w with
        replies := putReplies (.error "server is shutting down".toList) [q] w.replies
        closer := .stopping workers tasks replies records }
  | _ => none

def World.closeKillWorker (w : World) (i : ℕ) : Option World :=
  match w.closer with
  | .stopping workers _ _ _ => if i ∈ workers then w.kill i else none
  | _ => none

def World.closeKillTask (w : World) (c : ℕ) : Option World :=
  match w.closer with
  | .stopping _ tasks _ _ => if c ∈ tasks then w.cancelStep c (w.interruptCancel c) else none
  | _ => none

/-- Every worker and task has stopped, and so has the dispatcher. -/
def World.closeStopped (w : World) : Option World :=
  match w.closer with
  | .stopping workers tasks [] records =>
      if (workers.all fun i => (w.workers.lookup i).isNone) ∧
          (tasks.all fun c => (w.cancellations.lookup c).isNone) ∧ w.dispatcher = .stopped then
        some { w with closer := .persisting records [] }
      else none
  | _ => none

def World.closePersist (w : World) (persistence : TurnPersistence) (record : TurnRecord)
    (finishedAt : UTCTime) (canonical : TurnRecord) : Option World :=
  match w.closer with
  | .persisting pending done =>
      if record ∈ pending ∧
          w.answers persistence record finishedAt .turnWasCancelled canonical = true then
        some { w.commit canonical with
          closer := .persisting (pending.erase record) (done ++ [canonical]) }
      else none
  | _ => none

def World.closePersisted (w : World) : Option World :=
  match w.closer with
  | .persisting [] done => some { w with closer := .publishing done }
  | _ => none

def World.closeTimesOut (w : World) : Option World :=
  match w.closer with
  | .persisting _ _ => some { w with closer := .done }
  | _ => none

def World.closePublish (w : World) : Option World :=
  match w.closer with
  | .publishing (canonical :: canonicals) =>
      some { w with
        state := publishTerminalRecord canonical w.state
        closer := .publishing canonicals }
  | _ => none

/-- An exception ends `closeSupervisor`. -/
def World.abortClose (w : World) : Option World :=
  match w.closer with
  | .absent => none
  | _ => some { w with closer := .done }

/-! ### Steps -/

def World.step (config : SupervisorConfig) (persistence : TurnPersistence) (w : World) :
    SupervisorEvent → Option World
  | .acquire r key waitForReservation => w.acquire r key waitForReservation
  | .release r => w.release r
  | .submit spec turnId now => w.admitTurn config false spec (newTurnRecord spec turnId now)
  | .submitReserved r spec record => w.submitReserved config r spec record
  | .dispatch => w.dispatch config
  | .spawn i => w.spawn i
  | .stopDispatcher => w.stopDispatcher
  | .enter i => w.workerStep i (w.enter i)
  | .guardFails i err => w.workerStep i (w.guardFails i err)
  | .lookUp i => w.workerStep i (w.lookUp i)
  | .persistStart i err => w.workerStep i (w.persistStart i err)
  | .markStarted i now => w.workerStep i (w.markStarted i now)
  | .startRunner i => w.workerStep i (w.startRunner i)
  | .endRunner i err => w.workerStep i (w.endRunner i err)
  | .emit turnId eventType => w.emit turnId eventType
  | .readFinal i => w.workerStep i (w.readFinal i)
  | .persistFinal i finishedAt canonical =>
      w.workerStep i (w.persistFinal persistence i finishedAt canonical)
  | .publishFinal i => w.workerStep i (w.publishFinal i)
  | .leave i => w.workerStep i (w.leave i)
  | .readStateOnly i => w.workerStep i (w.readStateOnly i)
  | .persistStateOnly i finishedAt canonical =>
      w.workerStep i (w.persistStateOnly persistence i finishedAt canonical)
  | .writeStateOnly i => w.workerStep i (w.writeStateOnly i)
  | .finish i => w.workerStep i (w.finish i)
  | .cancel c boundary turnId => w.cancel c boundary turnId
  | .spawnTask c boundary turnId => w.spawnTask c boundary turnId
  | .claim c => w.cancelStep c (w.claim c)
  | .endHook c => w.cancelStep c (w.endHook c)
  | .killWorker c => w.cancelStep c w.killWorker
  | .joinWorker c => w.cancelStep c (w.joinWorker c)
  | .persistCancel c finishedAt canonical =>
      w.cancelStep c (w.persistCancel persistence c finishedAt canonical)
  | .publishCancel c => w.cancelStep c (w.publishCancel c)
  | .interruptCancel c => w.cancelStep c (w.interruptCancel c)
  | .releaseClaim c => w.cancelStep c (w.releaseClaim c)
  | .requestInput q turnId options now => w.requestInput q turnId options now
  | .createRequest q err => w.waiterStep q (w.createRequest persistence q err)
  | .install q => w.waiterStep q (w.install q)
  | .takeReply q => w.waiterStep q (w.takeReply q)
  | .pollTimesOut q => w.waiterStep q (w.pollTimesOut q)
  | .loseReply q => w.waiterStep q (w.loseReply q)
  | .load q => w.waiterStep q (w.load q)
  | .loadFails q err => w.waiterStep q (w.loadFails q err)
  | .complete q => w.waiterStep q (w.complete q)
  | .interruptWaiter q => w.waiterStep q (w.interruptWaiter q)
  | .cleanUp q => w.waiterStep q (w.cleanUp q)
  | .resolve s boundary q response => w.resolve persistence s boundary q response
  | .resolveDurably s => w.resolverStep s (w.resolveDurably s)
  | .resolveFails s committed => w.resolverStep s (w.resolveFails s committed)
  | .resolveLocally s => w.resolverStep s (w.resolveLocally s)
  | .close => w.close
  | .closeReply => w.closeReply
  | .closeKillWorker i => w.closeKillWorker i
  | .closeKillTask c => w.closeKillTask c
  | .closeStopped => w.closeStopped
  | .closePersist record finishedAt canonical =>
      w.closePersist persistence record finishedAt canonical
  | .closePersisted => w.closePersisted
  | .closeTimesOut => w.closeTimesOut
  | .closePublish => w.closePublish
  | .abortClose => w.abortClose

/-- The turn that a step may admit. -/
def SupervisorEvent.admittedTurn : SupervisorEvent → Option TurnId
  | .submit _ turnId _ => some turnId
  | .submitReserved _ _ record => some record.turnRecordId
  | _ => none

/-- The turn that a step admits has not been admitted before. -/
def FreshAdmission (w : World) (e : SupervisorEvent) : Prop :=
  ∀ turnId ∈ e.admittedTurn, w.admitted.lookup turnId = none

instance (w : World) (e : SupervisorEvent) : Decidable (FreshAdmission w e) := by
  unfold FreshAdmission
  infer_instance

/-! ### A turn to run -/

def exampleTurnConfig : ValidConfig where
  supervisorMaxConcurrentTurns := 2
  supervisorMaxConcurrentTurnsPerTenant := 2
  supervisorMaxQueuedTurns := 2
  supervisorMaxQueuedTurnsPerTenant := 2
  supervisorMaxEventSubscribers := 1
  supervisorMaxEventSubscribersPerTenant := 1
  supervisorEventReplayLimit := 1
  accepted := rfl

def exampleTurnBoundary : AccessBoundary := ⟨['t'], none⟩

def exampleTurnSpec (sessionId : Text) : TurnSpec where
  turnSpecSessionId := sessionId
  turnSpecClientRequestId := ['c']
  turnSpecPrompt := ['p']
  turnSpecImages := []
  turnSpecFiles := []
  turnSpecBoundary := exampleTurnBoundary

/-- A turn of the session `s` is submitted and run by worker 0. -/
def exampleStart : List SupervisorEvent :=
  [.submit (exampleTurnSpec ['s']) 1 0, .dispatch, .spawn 0, .enter 0, .lookUp 0,
    .persistStart 0 none, .markStarted 0 1, .startRunner 0]

end Server
end HaskellAgent
