import HaskellAgent.Server.Supervisor.World

/-!
# What a step of the supervisor may do

Every step of the supervisor's threads is one of a few changes, each with all that is known where it
happens.  The invariants of the supervisor are proved of these changes.
-/

open Option

namespace HaskellAgent
namespace Server

/-- The phases that a worker goes to by itself. -/
inductive WorkerMoves (w : World) (worker : Worker) : WorkerPhase → Prop
  | enter (h : worker.phase = .entering) : WorkerMoves w worker .looking
  | guardFails {err : Text} (h : worker.phase.guarded = true ∨ worker.phase = .entering) :
      WorkerMoves w worker (.failing err)
  | lookUp {record : TurnRecord} (h : worker.phase = .looking) :
      WorkerMoves w worker (.starting record)
  | lookUpNone (h : worker.phase = .looking)
      (hnone : ∀ slot, w.state.stateTurns.lookup worker.turnId = some slot →
        slot.turnSlotRecord.turnRecordBoundary ≠ worker.spec.turnSpecBoundary) :
      WorkerMoves w worker .leaving
  | started {record : TurnRecord} (h : worker.phase = .starting record) :
      WorkerMoves w worker .marking
  | startFailed {record : TurnRecord} {outcome : TurnTerminalOutcome}
      (h : worker.phase = .starting record) : WorkerMoves w worker (.finalizing outcome)
  | notStarted (h : worker.phase = .marking)
      (hnone : ∀ slot, w.state.stateTurns.lookup worker.turnId = some slot →
        slot.status = .turnRunning → slot.turnSlotRecord.key = worker.spec.key →
        slot.turnSlotCancelling = true) : WorkerMoves w worker .leaving
  | runnerEnds {outcome : TurnTerminalOutcome} (h : worker.phase = .running) :
      WorkerMoves w worker (.finalizing outcome)
  | readFinal {outcome : TurnTerminalOutcome} {record : TurnRecord}
      (h : worker.phase = .finalizing outcome)
      (hread : finalizable worker.turnId worker.spec w.state = some record) :
      WorkerMoves w worker (.persisting record outcome)
  | readNone {outcome : TurnTerminalOutcome} (h : worker.phase = .finalizing outcome)
      (hread : finalizable worker.turnId worker.spec w.state = none) :
      WorkerMoves w worker .leaving
  | leave (h : worker.phase = .leaving) : WorkerMoves w worker .finishing
  | readStateOnly {err : Text} {record : TurnRecord} (h : worker.phase = .failing err)
      (hread : stateOnlyFinalizable worker.turnId w.state = some record) :
      WorkerMoves w worker (.failingPersist record err)
  | readStateOnlyNone {err : Text} (h : worker.phase = .failing err)
      (hread : stateOnlyFinalizable worker.turnId w.state = none) :
      WorkerMoves w worker .finishing

/-- The worker takes the answer of the store. -/
inductive WorkerCommits : WorkerPhase → TurnRecord → TurnTerminalOutcome → TurnRecord →
    WorkerPhase → Prop
  | final {record canonical : TurnRecord} {outcome : TurnTerminalOutcome} :
      WorkerCommits (.persisting record outcome) record outcome canonical (.publishing canonical)
  | stateOnly {record canonical : TurnRecord} {err : Text} :
      WorkerCommits (.failingPersist record err) record (.turnErrored err) canonical
        (.failingWrite canonical)

/-- The phases that a call of `cancelTurn` goes to by itself, once it has claimed its turn. -/
inductive CancelMoves (w : World) : CancelPhase → CancelPhase → Prop
  | endHook {record : TurnRecord} {worker : Option ℕ} {doomed : Bool} :
      CancelMoves w (.interrupting record worker) (.stopping record worker doomed)
  | joined {record : TurnRecord} {worker : Option ℕ} {doomed : Bool}
      (hstopped : w.stoppedWorker worker = true) :
      CancelMoves w (.stopping record worker doomed)
        (if doomed then .releasing record else .persisting record)
  | interruptedStop {record : TurnRecord} {worker : Option ℕ} {doomed : Bool} :
      CancelMoves w (.stopping record worker doomed) (.releasing record)
  | interruptedPersist {record : TurnRecord} :
      CancelMoves w (.persisting record) (.releasing record)

inductive CloserMoves (w : World) : Closer → Prop
  | reply {workers tasks : List ℕ} {q : RequestId} {replies : List RequestId}
      {records : List TurnRecord} (h : w.closer = .stopping workers tasks (q :: replies) records) :
      CloserMoves w (.stopping workers tasks replies records)
  | stopped {workers tasks : List ℕ} {records : List TurnRecord}
      (h : w.closer = .stopping workers tasks [] records)
      (hworkers : ∀ i ∈ workers, w.workers.lookup i = none)
      (htasks : ∀ c ∈ tasks, w.cancellations.lookup c = none)
      (hdispatcher : w.dispatcher = .stopped) : CloserMoves w (.persisting records [])
  | persisted {done : List TurnRecord} (h : w.closer = .persisting [] done) :
      CloserMoves w (.publishing done)
  | ends (h : w.closer ≠ .absent) : CloserMoves w .done

/-- The steps of the waiters and the resolvers. -/
inductive InputStep (persistence : TurnPersistence) (w : World) : SupervisorEvent → World → Prop
  | requestInput {e : SupervisorEvent} {q : RequestId} {turnId : TurnId} {key : SessionKey}
      {record : TurnRecord}
      {request : HumanRequest} (hnew : w.waiters.lookup q = none)
      (hcontrol : w.control turnId = some key)
      (hcurrent : currentTurnRecord turnId w.state = .ok record)
      (hid : request.humanRequestId = q) (hturn : request.humanRequestTurnId = turnId)
      (hkey : (request.humanRequestBoundary, request.humanRequestSessionId) = key) :
      InputStep persistence w e { w with waiters := w.waiters.insert q ⟨request, .creating⟩ }
  | createFails {e : SupervisorEvent} {q : RequestId} {waiter : Waiter} {err : Text}
      (hwaiter : w.waiters.lookup q = some waiter) (h : waiter.phase = .creating) :
      InputStep persistence w e (w.setWaiter q waiter (.returned (.error err)))
  | created {e : SupervisorEvent} {q : RequestId} {waiter : Waiter}
      (hwaiter : w.waiters.lookup q = some waiter)
      (h : waiter.phase = .creating) :
      InputStep persistence w e ({ w with
        rows :=
          if persistence.durableRequests then w.rows.insert q (.unresolved waiter.request)
          else w.rows }.setWaiter q waiter .installing)
  | installFails {e : SupervisorEvent} {q : RequestId} {waiter : Waiter} {err : Text}
      (hwaiter : w.waiters.lookup q = some waiter) (h : waiter.phase = .installing)
      (hinstall : installInput waiter.request w.state = .error err) :
      InputStep persistence w e (w.setWaiter q waiter (.returned (.error err)))
  | installed {q : RequestId} {waiter : Waiter} {state : SupervisorState}
      (hwaiter : w.waiters.lookup q = some waiter) (h : waiter.phase = .installing)
      (hinstall : installInput waiter.request w.state = .ok state) :
      InputStep persistence w (.install q) ({ w with state := state }.setWaiter q waiter .waiting)
  | tookReply {q : RequestId} {waiter : Waiter} {reply : Except Text HumanResponse}
      (hwaiter : w.waiters.lookup q = some waiter) (h : waiter.phase = .waiting)
      (hreply : w.replies.lookup q = some reply) :
      InputStep persistence w (.takeReply q)
        ({ w with replies := w.replies.delete q }.setWaiter q waiter (.returned reply))
  | timedOut {q : RequestId} {waiter : Waiter} (hwaiter : w.waiters.lookup q = some waiter)
      (h : waiter.phase = .waiting) :
      InputStep persistence w (.pollTimesOut q) (w.setWaiter q waiter .loading)
  | lostReply {q : RequestId} {waiter : Waiter} (hwaiter : w.waiters.lookup q = some waiter)
      (h : waiter.phase = .waiting) :
      InputStep persistence w (.loseReply q)
        ({ w with replies := w.replies.delete q }.setWaiter q waiter .loading)
  | loaded {e : SupervisorEvent} {q : RequestId} {waiter : Waiter} {request : HumanRequest}
      {response : HumanResponse}
      (hwaiter : w.waiters.lookup q = some waiter) (h : waiter.phase = .loading)
      (hrow : w.rows.lookup q = some (.resolved request response)) :
      InputStep persistence w e (w.setWaiter q waiter (.completing response))
  | loadedNothing {e : SupervisorEvent} {q : RequestId} {waiter : Waiter}
      (hwaiter : w.waiters.lookup q = some waiter)
      (h : waiter.phase = .loading)
      (hrow : ∀ request response, w.rows.lookup q ≠ some (.resolved request response)) :
      InputStep persistence w e (w.setWaiter q waiter .waiting)
  | loadFailed {q : RequestId} {waiter : Waiter} {err : Text}
      (hwaiter : w.waiters.lookup q = some waiter) (h : waiter.phase = .loading) :
      InputStep persistence w (.loadFails q err) (w.setWaiter q waiter (.returned (.error err)))
  | completed {q : RequestId} {waiter : Waiter} {response : HumanResponse}
      {request : HumanRequest} {state : SupervisorState}
      (hwaiter : w.waiters.lookup q = some waiter) (h : waiter.phase = .completing response)
      (hcomplete : completePendingInput q w.state = some (request, state)) :
      InputStep persistence w (.complete q)
        ({ w with state := state }.setWaiter q waiter (.returned (.ok response)))
  | completeFails {q : RequestId} {waiter : Waiter} {response : HumanResponse} {err : Text}
      (hwaiter : w.waiters.lookup q = some waiter) (h : waiter.phase = .completing response)
      (hcomplete : w.state.statePendingInputs.lookup q = none) :
      InputStep persistence w (.complete q) (w.setWaiter q waiter (.returned (.error err)))
  | interrupted {q : RequestId} {waiter : Waiter} (hwaiter : w.waiters.lookup q = some waiter)
      (h : waiter.phase.ended = false) :
      InputStep persistence w (.interruptWaiter q) (w.setWaiter q waiter .interrupted)
  | consumed {e : SupervisorEvent} {q : RequestId} {waiter : Waiter} {result : HumanResponse}
      {request : HumanRequest}
      {response : HumanResponse} (hwaiter : w.waiters.lookup q = some waiter)
      (h : waiter.phase = .returned (.ok result))
      (hrow : w.rows.lookup q = some (.resolved request response)) :
      InputStep persistence w e { w with rows := w.rows.insert q .consumed }
  | abandoned {e : SupervisorEvent} {q : RequestId} {waiter : Waiter} {request : HumanRequest}
      (hwaiter : w.waiters.lookup q = some waiter) (h : waiter.phase.ended = true)
      (hrow : w.rows.lookup q = some (.unresolved request)) :
      InputStep persistence w e { w with rows := w.rows.delete q }
  | resolves {e : SupervisorEvent} {s : ℕ} {boundary : AccessBoundary} {q : RequestId}
      {response : HumanResponse}
      (hnew : w.resolvers.lookup s = none) :
      InputStep persistence w e { w with
        resolvers := w.resolvers.insert s ⟨boundary, q, response,
          if persistence.durableRequests then .durable else .localOnly none⟩ }
  | resolverEnds {e : SupervisorEvent} {s : ℕ} {resolver : Resolver}
      (hresolver : w.resolvers.lookup s = some resolver) :
      InputStep persistence w e { w with resolvers := w.resolvers.delete s }
  | resolvedDurably {e : SupervisorEvent} {s : ℕ} {resolver : Resolver} {request : HumanRequest}
      {resolvers : FinMap ℕ Resolver} (hresolver : w.resolvers.lookup s = some resolver)
      (h : resolver.phase = .durable)
      (hrow : w.rows.lookup resolver.requestId = some (.unresolved request))
      (hresolvers : resolvers = w.resolvers.delete s ∨
        resolvers = w.resolvers.insert s { resolver with phase := .localOnly (some request) }) :
      InputStep persistence w e { w with
        rows := w.rows.insert resolver.requestId (.resolved request resolver.response)
        resolvers := resolvers }
  | acceptedDurably {s : ℕ} {resolver : Resolver} {request : HumanRequest}
      (hresolver : w.resolvers.lookup s = some resolver)
      (h : resolver.phase = .localOnly (some request))
      (hpending : w.state.statePendingInputs.lookup resolver.requestId = none) :
      InputStep persistence w (.resolveLocally s) (w.accept s resolver)
  | acceptedLocally {s : ℕ} {resolver : Resolver} {durableRequest : Option HumanRequest}
      {request : HumanRequest} {state : SupervisorState}
      (hresolver : w.resolvers.lookup s = some resolver)
      (h : resolver.phase = .localOnly durableRequest)
      (hreply : w.replies.lookup resolver.requestId = none)
      (hcomplete : completePendingInput resolver.requestId w.state = some (request, state)) :
      InputStep persistence w (.resolveLocally s) ({ w with
        state := state
        replies := w.replies.insert resolver.requestId (.ok resolver.response) }.accept s resolver)

/-- Every step. -/
inductive Change (config : SupervisorConfig) (persistence : TurnPersistence) (w : World) :
    SupervisorEvent → World → Prop
  | acquire {e : SupervisorEvent} {r : ℕ} {key : SessionKey} (hnew : w.reservations.lookup r = none)
      (hopen : w.state.stateClosed = false) (hidle : sessionBusy key w.state.stateTurns = false)
      (hfree : key ∉ w.state.stateActiveSessions) :
      Change config persistence w e { w with
        state := { w.state with
          stateActiveSessions := insert key w.state.stateActiveSessions }
        reservations := w.reservations.insert r key }
  | release {r : ℕ} {key : SessionKey} (hr : w.reservations.lookup r = some key) :
      Change config persistence w (.release r) { w with
        state := releaseSession key w.state
        reservations := w.reservations.delete r }
  | admits {e : SupervisorEvent} {reservationHeld : Bool} {spec : TurnSpec}
      {record admitted : TurnRecord}
      {state : SupervisorState}
      (hevent : e.admittedTurn = some record.turnRecordId)
      (hheld : reservationHeld = true → ∃ r, w.reservations.lookup r = some spec.key)
      (hadmitted : enqueueTurnRecord config reservationHeld spec record w.state =
        .ok (admitted, state)) :
      Change config persistence w e { w with
        state := state
        admitted := w.admitted.insert admitted.turnRecordId admitted.key }
  | dispatch {e : SupervisorEvent} {turnId : TurnId} {spec : TurnSpec} {state : SupervisorState}
      (hdispatcher : w.dispatcher = .choosing)
      (hreserve : reserveRunnable config w.state = .reserved turnId spec state) :
      Change config persistence w e { w with
        state := state
        dispatcher := .reserved turnId spec }
  | dispatcherStops {e : SupervisorEvent} (hclosed : w.state.stateClosed = true) :
      Change config persistence w e { w with dispatcher := .stopped }
  | spawn {e : SupervisorEvent} {i : ℕ} {turnId : TurnId} {spec : TurnSpec}
      (hdispatcher : w.dispatcher = .reserved turnId spec) (hnew : i = w.workerThreads)
      (haccepted : acceptsWorker turnId spec w.state = true) :
      Change config persistence w e { w with
        state := registerWorker turnId i w.state
        workers := w.workers.insert i ⟨turnId, spec, .entering⟩
        workerThreads := i + 1
        dispatcher := .choosing }
  | spawnRejected {e : SupervisorEvent} {turnId : TurnId} {spec : TurnSpec}
      (hdispatcher : w.dispatcher = .reserved turnId spec)
      (hrejected : acceptsWorker turnId spec w.state = false) :
      Change config persistence w e { w with dispatcher := .choosing }
  | workerMoves {e : SupervisorEvent} {i : ℕ} {worker : Worker} {phase : WorkerPhase}
      (hworker : w.workers.lookup i = some worker) (hmoves : WorkerMoves w worker phase) :
      Change config persistence w e (w.setWorker i worker phase)
  | markStarted {e : SupervisorEvent} {i : ℕ} {worker : Worker} {now : UTCTime}
      {state : SupervisorState}
      (hworker : w.workers.lookup i = some worker) (hphase : worker.phase = .marking)
      (hmark : markTurnStarted now worker.turnId worker.spec w.state = some state) :
      Change config persistence w e ({ w with state := state }.setWorker i worker .marked)
  | startRunner {i : ℕ} {worker : Worker} (hworker : w.workers.lookup i = some worker)
      (hphase : worker.phase = .marked) :
      Change config persistence w (.startRunner i)
        ({ w with runnerStarts := w.runnerStarts ++ [worker.turnId] }.setWorker i worker .running)
  | emit {e : SupervisorEvent} {turnId : TurnId} {slot : TurnSlot} {eventType : Text}
      (hslot : w.state.stateTurns.lookup turnId = some slot)
      (hunclaimed : slot.turnSlotCancelling = false) (hactive : slot.active = true) :
      Change config persistence w e { w with
        state := appendTurnEvent (.emitted eventType) turnId w.state }
  | emitsNothing {e : SupervisorEvent} : Change config persistence w e w
  | workerCommits {e : SupervisorEvent} {i : ℕ} {worker : Worker} {record canonical : TurnRecord}
      {finishedAt : UTCTime} {outcome : TurnTerminalOutcome} {phase : WorkerPhase}
      (hworker : w.workers.lookup i = some worker)
      (hcommits : WorkerCommits worker.phase record outcome canonical phase)
      (hanswer : w.answers persistence record finishedAt outcome canonical = true) :
      Change config persistence w e
        ({ w with committed := (w.commit canonical).committed }.setWorker i worker phase)
  | publishFinal {i : ℕ} {worker : Worker} {canonical : TurnRecord}
      (hworker : w.workers.lookup i = some worker) (hphase : worker.phase = .publishing canonical) :
      Change config persistence w (.publishFinal i)
        ({ w with state := publishTerminalRecord canonical w.state }.setWorker i worker .leaving)
  | writeStateOnly {i : ℕ} {worker : Worker} {canonical : TurnRecord}
      (hworker : w.workers.lookup i = some worker)
      (hphase : worker.phase = .failingWrite canonical) :
      Change config persistence w (.writeStateOnly i)
        ({ w with state := publishStateOnly worker.turnId canonical w.state }.setWorker i worker
          .finishing)
  | finish {i : ℕ} {worker : Worker} (hworker : w.workers.lookup i = some worker)
      (hphase : worker.phase = .finishing) :
      Change config persistence w (.finish i) { w with
        state := finishWorker worker.turnId worker.spec w.state
        workers := w.workers.delete i }
  | kill {e : SupervisorEvent} {i : ℕ} {worker : Worker}
      (hworker : w.workers.lookup i = some worker)
      (hcause : (∃ c cancellation record doomed, w.cancellations.lookup c = some cancellation ∧
          cancellation.phase = .stopping record (some i) doomed) ∨
        ∃ workers tasks replies records,
          w.closer = .stopping workers tasks replies records ∧ i ∈ workers) :
      Change config persistence w e (w.setWorker i worker .finishing)
  | cancelBegins {e : SupervisorEvent} {c : ℕ} {cancellation : Cancellation}
      {tasks : FinMap TurnId ℕ}
      (hnew : w.cancellations.lookup c = none) (hphase : cancellation.phase = .claiming) :
      Change config persistence w e { w with
        state := { w.state with stateCancellationTasks := tasks }
        cancellations := w.cancellations.insert c cancellation }
  | cancelEnds {e : SupervisorEvent} {c : ℕ} {cancellation : Cancellation} {tasks : FinMap TurnId ℕ}
      (hcancel : w.cancellations.lookup c = some cancellation)
      (hphase : cancellation.phase = .claiming) :
      Change config persistence w e { w with
        state := { w.state with stateCancellationTasks := tasks }
        cancellations := w.cancellations.delete c }
  | claim {c : ℕ} {cancellation : Cancellation} {record : TurnRecord} {worker : Option ℕ}
      {inputs : List RequestId} {state : SupervisorState}
      (hcancel : w.cancellations.lookup c = some cancellation)
      (hphase : cancellation.phase = .claiming)
      (hclaim : claimCancellation cancellation.boundary cancellation.turnId w.state =
        .claimed record worker inputs state) :
      Change config persistence w (.claim c) ({ w with
        state := state
        replies := putReplies (.error "turn cancelled".toList) inputs w.replies }.setCancel c
          cancellation (.interrupting record worker))
  | cancelMoves {e : SupervisorEvent} {c : ℕ} {cancellation : Cancellation} {phase : CancelPhase}
      (hcancel : w.cancellations.lookup c = some cancellation)
      (hmoves : CancelMoves w cancellation.phase phase) :
      Change config persistence w e (w.setCancel c cancellation phase)
  | cancelCommits {e : SupervisorEvent} {c : ℕ} {cancellation : Cancellation}
      {record canonical : TurnRecord}
      {finishedAt : UTCTime} (hcancel : w.cancellations.lookup c = some cancellation)
      (hphase : cancellation.phase = .persisting record)
      (hanswer : w.answers persistence record finishedAt .turnWasCancelled canonical = true) :
      Change config persistence w e
        ({ w with committed := (w.commit canonical).committed }.setCancel c cancellation
          (.publishing canonical))
  | publishCancel {c : ℕ} {cancellation : Cancellation} {canonical : TurnRecord}
      {tasks : FinMap TurnId ℕ} (hcancel : w.cancellations.lookup c = some cancellation)
      (hphase : cancellation.phase = .publishing canonical) :
      Change config persistence w (.publishCancel c) { w with
        state := { publishTerminalRecord canonical w.state with stateCancellationTasks := tasks }
        cancellations := w.cancellations.delete c }
  | releaseClaim {c : ℕ} {cancellation : Cancellation} {record : TurnRecord}
      {tasks : FinMap TurnId ℕ} (hcancel : w.cancellations.lookup c = some cancellation)
      (hphase : cancellation.phase = .releasing record) :
      Change config persistence w (.releaseClaim c) { w with
        state := { releaseCancellationClaim record w.state with stateCancellationTasks := tasks }
        cancellations := w.cancellations.delete c }
  | input {e : SupervisorEvent} {w' : World} (hinput : InputStep persistence w e w') : Change config
      persistence w e w'
  | close (hopen : w.state.stateClosed = false) :
      Change config persistence w .close { w with
        state := closeState w.state
        closer := .stopping w.state.stateWorkers.elems w.state.stateCancellationTasks.elems
          w.state.statePendingInputs.keys
          ((w.state.stateTurns.elems.filter fun slot => slot.active).map (·.turnSlotRecord)) }
  | closerMoves {e : SupervisorEvent} {closer : Closer}
      {replies : FinMap RequestId (Except Text HumanResponse)}
      (hmoves : CloserMoves w closer)
      (hreplies : ∀ q, w.replies.lookup q = none ∨ replies.lookup q = w.replies.lookup q) :
      Change config persistence w e { w with closer := closer, replies := replies }
  | closePersist {e : SupervisorEvent} {pending done : List TurnRecord}
      {record canonical : TurnRecord}
      {finishedAt : UTCTime} (hcloser : w.closer = .persisting pending done)
      (hrecord : record ∈ pending)
      (hanswer : w.answers persistence record finishedAt .turnWasCancelled canonical = true) :
      Change config persistence w e { w with
        committed := (w.commit canonical).committed
        closer := .persisting (pending.erase record) (done ++ [canonical]) }
  | closePublish {canonical : TurnRecord} {canonicals : List TurnRecord}
      (hcloser : w.closer = .publishing (canonical :: canonicals)) :
      Change config persistence w .closePublish { w with
        state := publishTerminalRecord canonical w.state
        closer := .publishing canonicals }

/-! ### Every step is a change -/

section Steps

variable {config : SupervisorConfig} {persistence : TurnPersistence} {w w' : World}
  {e : SupervisorEvent}

theorem World.commit_eq (w : World) (canonical : TurnRecord) :
    w.commit canonical = { w with committed := (w.commit canonical).committed } := by
  unfold World.commit
  split <;> rfl

theorem workerStep_eq_some {i : ℕ} {next : Worker → Option World}
    (h : w.workerStep i next = some w') :
    ∃ worker, w.workers.lookup i = some worker ∧ next worker = some w' := by
  unfold World.workerStep at h
  split at h
  · cases h
  · next worker hworker => exact ⟨worker, hworker, h⟩

theorem cancelStep_eq_some {c : ℕ} {next : Cancellation → Option World}
    (h : w.cancelStep c next = some w') :
    ∃ cancellation, w.cancellations.lookup c = some cancellation ∧
      next cancellation = some w' := by
  unfold World.cancelStep at h
  split at h
  · cases h
  · next cancellation hcancel => exact ⟨cancellation, hcancel, h⟩

theorem waiterStep_eq_some {q : RequestId} {next : Waiter → Option World}
    (h : w.waiterStep q next = some w') :
    ∃ waiter, w.waiters.lookup q = some waiter ∧ next waiter = some w' := by
  unfold World.waiterStep at h
  split at h
  · cases h
  · next waiter hwaiter => exact ⟨waiter, hwaiter, h⟩

theorem resolverStep_eq_some {s : ℕ} {next : Resolver → Option World}
    (h : w.resolverStep s next = some w') :
    ∃ resolver, w.resolvers.lookup s = some resolver ∧ next resolver = some w' := by
  unfold World.resolverStep at h
  split at h
  · cases h
  · next resolver hresolver => exact ⟨resolver, hresolver, h⟩

theorem acquire_change {r : ℕ} {key : SessionKey} {waitForReservation : Bool}
    (h : w.acquire r key waitForReservation = some w') : Change config persistence w e w' := by
  unfold World.acquire at h
  split at h
  · next state hr hacquire =>
    cases h
    unfold acquireSession at hacquire
    split at hacquire
    · cases hacquire
    · next hopen =>
      split at hacquire
      · cases hacquire
      · next hidle =>
        split at hacquire
        · split at hacquire
          · cases hacquire
          · cases hacquire
        · next hfree =>
          cases Except.ok.inj (some.inj hacquire)
          rw [Bool.not_eq_true] at hopen hidle
          exact .acquire hr hopen hidle hfree
  · cases h

theorem admitTurn_change {reservationHeld : Bool} {spec : TurnSpec} {record : TurnRecord}
    (hevent : e.admittedTurn = some record.turnRecordId)
    (hheld : reservationHeld = true → ∃ r, w.reservations.lookup r = some spec.key)
    (h : w.admitTurn config reservationHeld spec record = some w') :
    Change config persistence w e w' := by
  unfold World.admitTurn at h
  split at h
  · cases h
  · next admitted state hadmitted =>
    cases h
    exact .admits hevent hheld hadmitted

theorem dispatch_change (h : w.dispatch config = some w') : Change config persistence w e w' := by
  unfold World.dispatch at h
  split at h
  · next hdispatcher =>
    split at h
    · next hclosed =>
      cases h
      refine .dispatcherStops ?_
      unfold reserveRunnable at hclosed
      by_contra hopen
      rw [if_neg hopen] at hclosed
      split at hclosed
      · cases hclosed
      · split at hclosed
        · cases hclosed
        · split at hclosed <;> cases hclosed
    · cases h
    · next turnId spec state hreserve =>
      cases h
      exact .dispatch hdispatcher hreserve
  · cases h

theorem spawn_change {i : ℕ} (h : w.spawn i = some w') : Change config persistence w e w' := by
  unfold World.spawn at h
  split at h
  · next turnId spec hdispatcher =>
    split at h
    · cases h
    · next hnew =>
      rw [Decidable.not_not] at hnew
      split at h
      · next haccepted =>
        cases h
        exact .spawn hdispatcher hnew haccepted
      · next hrejected =>
        cases h
        rw [Bool.not_eq_true] at hrejected
        exact .spawnRejected hdispatcher hrejected
  · cases h

section Worker

variable {i : ℕ} {worker : Worker} (hworker : w.workers.lookup i = some worker)
include hworker

theorem enter_change (h : w.enter i worker = some w') : Change config persistence w e w' := by
  unfold World.enter at h
  split at h
  · next hphase =>
    cases h
    exact .workerMoves hworker (.enter hphase)
  · cases h

theorem guardFails_change {err : Text} (h : w.guardFails i err worker = some w') :
    Change config persistence w e w' := by
  unfold World.guardFails at h
  split at h
  · next hphase =>
    cases h
    exact .workerMoves hworker (.guardFails hphase)
  · cases h

theorem lookUp_change (h : w.lookUp i worker = some w') : Change config persistence w e w' := by
  unfold World.lookUp at h
  split at h
  · next hphase =>
    split at h
    · next hnone =>
      cases h
      refine .workerMoves hworker (.lookUpNone hphase fun slot hslot => ?_)
      rw [hnone] at hslot
      cases hslot
    · next slot hslot =>
      split at h
      · cases h
        exact .workerMoves hworker (.lookUp hphase)
      · next hboundary =>
        cases h
        refine .workerMoves hworker (.lookUpNone hphase fun slot' hslot' => ?_)
        rw [hslot] at hslot'
        cases hslot'
        exact hboundary
  · cases h

theorem persistStart_change {err : Option Text} (h : w.persistStart i err worker = some w') :
    Change config persistence w e w' := by
  unfold World.persistStart at h
  split at h
  · next record hphase =>
    cases h
    exact .workerMoves hworker (.started hphase)
  · next record err hphase =>
    cases h
    exact .workerMoves hworker (.startFailed hphase)
  · cases h

theorem markStarted_change {now : UTCTime} (h : w.markStarted i now worker = some w') :
    Change config persistence w e w' := by
  unfold World.markStarted at h
  split at h
  · next hphase =>
    split at h
    · next hmark =>
      cases h
      refine .workerMoves hworker (.notStarted hphase fun slot hslot hrunning hkey => ?_)
      unfold markTurnStarted at hmark
      rw [hslot] at hmark
      by_contra hclaimed
      rw [Bool.not_eq_true] at hclaimed
      dsimp only at hmark
      rw [if_pos ⟨hrunning, hclaimed, hkey⟩] at hmark
      cases hmark
    · next state hmark =>
      cases h
      exact .markStarted hworker hphase hmark
  · cases h

theorem startRunner_change (h : w.startRunner i worker = some w') :
    Change config persistence w (.startRunner i) w' := by
  unfold World.startRunner at h
  split at h
  · next hphase =>
    cases h
    exact .startRunner hworker hphase
  · cases h

theorem endRunner_change {err : Option Text} (h : w.endRunner i err worker = some w') :
    Change config persistence w e w' := by
  unfold World.endRunner at h
  split at h
  · next hphase =>
    cases h
    exact .workerMoves hworker (.runnerEnds hphase)
  · cases h

theorem readFinal_change (h : w.readFinal i worker = some w') :
    Change config persistence w e w' := by
  unfold World.readFinal at h
  split at h
  · next outcome hphase =>
    split at h
    · next hread =>
      cases h
      exact .workerMoves hworker (.readNone hphase hread)
    · next record hread =>
      cases h
      exact .workerMoves hworker (.readFinal hphase hread)
  · cases h

theorem persistFinal_change {finishedAt : UTCTime} {canonical : TurnRecord}
    (h : w.persistFinal persistence i finishedAt canonical worker = some w') :
    Change config persistence w e w' := by
  unfold World.persistFinal at h
  split at h
  · next record outcome hphase =>
    split at h
    · next hanswer =>
      cases h
      rw [World.commit_eq]
      exact .workerCommits hworker (hphase ▸ .final) hanswer
    · cases h
  · cases h

theorem publishFinal_change (h : w.publishFinal i worker = some w') :
    Change config persistence w (.publishFinal i) w' := by
  unfold World.publishFinal at h
  split at h
  · next canonical hphase =>
    cases h
    exact .publishFinal hworker hphase
  · cases h

theorem leave_change (h : w.leave i worker = some w') : Change config persistence w e w' := by
  unfold World.leave at h
  split at h
  · next hphase =>
    cases h
    exact .workerMoves hworker (.leave hphase)
  · cases h

theorem readStateOnly_change (h : w.readStateOnly i worker = some w') :
    Change config persistence w e w' := by
  unfold World.readStateOnly at h
  split at h
  · next err hphase =>
    split at h
    · next hread =>
      cases h
      exact .workerMoves hworker (.readStateOnlyNone hphase hread)
    · next record hread =>
      cases h
      exact .workerMoves hworker (.readStateOnly hphase hread)
  · cases h

theorem persistStateOnly_change {finishedAt : UTCTime} {canonical : TurnRecord}
    (h : w.persistStateOnly persistence i finishedAt canonical worker = some w') :
    Change config persistence w e w' := by
  unfold World.persistStateOnly at h
  split at h
  · next record err hphase =>
    split at h
    · next hanswer =>
      cases h
      rw [World.commit_eq]
      exact .workerCommits hworker (hphase ▸ .stateOnly) hanswer
    · cases h
  · cases h

theorem writeStateOnly_change (h : w.writeStateOnly i worker = some w') :
    Change config persistence w (.writeStateOnly i) w' := by
  unfold World.writeStateOnly at h
  split at h
  · next canonical hphase =>
    cases h
    exact .writeStateOnly hworker hphase
  · cases h

theorem finish_change (h : w.finish i worker = some w') :
    Change config persistence w (.finish i) w' := by
  unfold World.finish at h
  split at h
  · next hphase =>
    cases h
    exact .finish hworker hphase
  · cases h

end Worker

theorem kill_eq_some {i : ℕ} (h : w.kill i = some w') :
    ∃ worker, w.workers.lookup i = some worker ∧ w' = w.setWorker i worker .finishing := by
  unfold World.kill at h
  split at h
  · cases h
  · next worker hworker => exact ⟨worker, hworker, (some.inj h).symm⟩

variable {boundary : AccessBoundary}

theorem cancel_change {c : ℕ} {turnId : TurnId} (h : w.cancel c boundary turnId = some w') :
    Change config persistence w e w' := by
  unfold World.cancel at h
  split at h
  · cases h
  · next hnew =>
    cases h
    exact .cancelBegins hnew rfl

theorem spawnTask_change {c : ℕ} {turnId : TurnId} (h : w.spawnTask c boundary turnId = some w') :
    Change config persistence w e w' := by
  unfold World.spawnTask at h
  split at h
  · next state hnew hregister =>
    cases h
    unfold registerCancellationTask at hregister
    split at hregister
    · cases hregister
    · split at hregister
      · cases hregister
      · cases hregister
        exact .cancelBegins hnew rfl
  · cases h

/-- A call that returns changes its tasks, if anything. -/
theorem endCancel_state (w : World) (c : ℕ) (cancellation : Cancellation) :
    ∃ tasks, w.endCancel c cancellation = { w with
      state := { w.state with stateCancellationTasks := tasks }
      cancellations := w.cancellations.delete c } := by
  unfold World.endCancel deleteCancellationTaskIfOwned
  split
  · split
    · exact ⟨w.state.stateCancellationTasks, rfl⟩
    · split
      · exact ⟨_, rfl⟩
      · exact ⟨w.state.stateCancellationTasks, rfl⟩
  · exact ⟨w.state.stateCancellationTasks, rfl⟩

section Cancellation

variable {c : ℕ} {cancellation : Cancellation}
  (hcancel : w.cancellations.lookup c = some cancellation)
include hcancel

theorem endCancel_change (hphase : cancellation.phase = .claiming) :
    Change config persistence w e (w.endCancel c cancellation) := by
  obtain ⟨tasks, hend⟩ := endCancel_state w c cancellation
  rw [hend]
  exact .cancelEnds hcancel hphase

theorem claim_change (h : w.claim c cancellation = some w') :
    Change config persistence w (.claim c) w' := by
  unfold World.claim at h
  split at h
  · next hphase =>
    split at h
    · cases h
      exact endCancel_change hcancel hphase
    · cases h
      exact endCancel_change hcancel hphase
    · next record worker inputs state hclaim =>
      cases h
      exact .claim hcancel hphase hclaim
  · cases h

theorem endHook_change (h : w.endHook c cancellation = some w') :
    Change config persistence w e w' := by
  unfold World.endHook at h
  split at h
  · next hphase =>
    cases h
    exact .cancelMoves hcancel (hphase ▸ .endHook)
  · cases h

theorem killWorker_change (h : w.killWorker cancellation = some w') :
    Change config persistence w e w' := by
  unfold World.killWorker at h
  split at h
  · next record i doomed hphase =>
    obtain ⟨worker, hworker, rfl⟩ := kill_eq_some h
    exact .kill hworker (.inl ⟨c, cancellation, record, doomed, hcancel, hphase⟩)
  · cases h

theorem joinWorker_change (h : w.joinWorker c cancellation = some w') :
    Change config persistence w e w' := by
  unfold World.joinWorker at h
  split at h
  · next record worker doomed hphase =>
    split at h
    · next hstopped =>
      cases h
      exact .cancelMoves hcancel (hphase ▸ .joined hstopped)
    · cases h
  · cases h

theorem persistCancel_change {finishedAt : UTCTime} {canonical : TurnRecord}
    (h : w.persistCancel persistence c finishedAt canonical cancellation = some w') :
    Change config persistence w e w' := by
  unfold World.persistCancel at h
  split at h
  · next record hphase =>
    split at h
    · next hanswer =>
      cases h
      rw [World.commit_eq]
      exact .cancelCommits hcancel hphase hanswer
    · cases h
  · cases h

theorem publishCancel_change (h : w.publishCancel c cancellation = some w') :
    Change config persistence w (.publishCancel c) w' := by
  unfold World.publishCancel at h
  split at h
  · next canonical hphase =>
    cases h
    obtain ⟨tasks, hend⟩ := endCancel_state
      { w with state := publishTerminalRecord canonical w.state } c cancellation
    rw [hend]
    exact .publishCancel hcancel hphase
  · cases h

theorem interruptCancel_change (h : w.interruptCancel c cancellation = some w') :
    Change config persistence w e w' := by
  unfold World.interruptCancel at h
  split at h
  · next hphase =>
    cases h
    exact endCancel_change hcancel hphase
  · next hphase =>
    cases h
    exact .cancelMoves hcancel (hphase ▸ .endHook)
  · next hphase =>
    cases h
    exact .cancelMoves hcancel (hphase ▸ .interruptedStop)
  · next hphase =>
    cases h
    exact .cancelMoves hcancel (hphase ▸ .interruptedPersist)
  · cases h
  · cases h

theorem releaseClaim_change (h : w.releaseClaim c cancellation = some w') :
    Change config persistence w (.releaseClaim c) w' := by
  unfold World.releaseClaim at h
  split at h
  · next record hphase =>
    cases h
    obtain ⟨tasks, hend⟩ := endCancel_state
      { w with state := releaseCancellationClaim record w.state } c cancellation
    rw [hend]
    exact .releaseClaim hcancel hphase
  · cases h

end Cancellation

theorem emit_change {turnId : TurnId} {eventType : Text} (h : w.emit turnId eventType = some w') :
    Change config persistence w e w' := by
  unfold World.emit at h
  split at h
  · cases h
  · next key hcontrol =>
    cases h
    unfold publishTurnEvent
    split
    · exact .emitsNothing
    · next slot hslot =>
      split
      · next hopen => exact .emit hslot hopen.2.1 hopen.2.2.2
      · exact .emitsNothing

theorem requestInput_change {q : RequestId} {turnId : TurnId} {options : List Text}
    {now : UTCTime} (h : w.requestInput q turnId options now = some w') :
    InputStep persistence w e w' := by
  unfold World.requestInput at h
  split at h
  · next key record hnew hcontrol hcurrent =>
    cases h
    exact .requestInput hnew hcontrol hcurrent rfl rfl rfl
  · cases h

section Waiter

variable {q : RequestId} {waiter : Waiter} (hwaiter : w.waiters.lookup q = some waiter)
include hwaiter

theorem createRequest_change {err : Option Text}
    (h : w.createRequest persistence q err waiter = some w') : InputStep persistence w e w' := by
  unfold World.createRequest at h
  split at h
  · next err hphase =>
    cases h
    exact .createFails hwaiter hphase
  · next hphase =>
    cases h
    exact .created hwaiter hphase
  · cases h

theorem install_change (h : w.install q waiter = some w') :
    InputStep persistence w (.install q) w' := by
  unfold World.install at h
  split at h
  · next hphase =>
    split at h
    · next err hinstall =>
      cases h
      exact .installFails hwaiter hphase hinstall
    · next state hinstall =>
      cases h
      exact .installed hwaiter hphase hinstall
  · cases h

theorem takeReply_change (h : w.takeReply q waiter = some w') :
    InputStep persistence w (.takeReply q) w' := by
  unfold World.takeReply at h
  split at h
  · next reply hphase hreply =>
    cases h
    exact .tookReply hwaiter hphase hreply
  · cases h

theorem pollTimesOut_change (h : w.pollTimesOut q waiter = some w') :
    InputStep persistence w (.pollTimesOut q) w' := by
  unfold World.pollTimesOut at h
  split at h
  · next hphase =>
    cases h
    exact .timedOut hwaiter hphase
  · cases h

theorem loseReply_change (h : w.loseReply q waiter = some w') :
    InputStep persistence w (.loseReply q) w' := by
  unfold World.loseReply at h
  split at h
  · next hphase _ =>
    cases h
    exact .lostReply hwaiter hphase
  · cases h

theorem load_change (h : w.load q waiter = some w') : InputStep persistence w e w' := by
  unfold World.load at h
  split at h
  · next hphase =>
    split at h
    · next request response hrow =>
      cases h
      exact .loaded hwaiter hphase hrow
    · next hrow =>
      cases h
      exact .loadedNothing hwaiter hphase hrow
  · cases h

theorem loadFails_change {err : Text} (h : w.loadFails q err waiter = some w') :
    InputStep persistence w (.loadFails q err) w' := by
  unfold World.loadFails at h
  split at h
  · next hphase =>
    cases h
    exact .loadFailed hwaiter hphase
  · cases h

theorem complete_change (h : w.complete q waiter = some w') :
    InputStep persistence w (.complete q) w' := by
  unfold World.complete at h
  split at h
  · next response hphase =>
    split at h
    · next hcomplete =>
      cases h
      refine .completeFails hwaiter hphase ?_
      unfold completePendingInput at hcomplete
      split at hcomplete
      · next hpending => exact hpending
      · cases hcomplete
    · next request state hcomplete =>
      cases h
      exact .completed hwaiter hphase hcomplete
  · cases h

theorem interruptWaiter_change (h : w.interruptWaiter q waiter = some w') :
    InputStep persistence w (.interruptWaiter q) w' := by
  unfold World.interruptWaiter at h
  split at h
  · cases h
  · next hphase =>
    cases h
    rw [Bool.not_eq_true] at hphase
    exact .interrupted hwaiter hphase

theorem cleanUp_change (h : w.cleanUp q waiter = some w') : InputStep persistence w e w' := by
  unfold World.cleanUp at h
  split at h
  · next response request resolved hphase hrow =>
    cases h
    exact .consumed hwaiter hphase hrow
  · next err request hphase hrow =>
    cases h
    exact .abandoned hwaiter (by rw [hphase]; rfl) hrow
  · next request hphase hrow =>
    cases h
    exact .abandoned hwaiter (by rw [hphase]; rfl) hrow
  · cases h

end Waiter

theorem resolve_change {s : ℕ} {q : RequestId} {response : HumanResponse}
    (h : w.resolve persistence s boundary q response = some w') : InputStep persistence w e w' := by
  unfold World.resolve at h
  split at h
  · cases h
  · next hnew =>
    cases h
    exact .resolves hnew

theorem resolvableRequest_eq_some {response : HumanResponse} {row : Option RequestRow}
    {request : HumanRequest} (h : resolvableRequest boundary response row = some request) :
    row = some (.unresolved request) := by
  unfold resolvableRequest at h
  split at h
  · split at h
    · rw [some.inj h]
    · cases h
  · cases h

section Resolver

variable {s : ℕ} {resolver : Resolver} (hresolver : w.resolvers.lookup s = some resolver)
include hresolver

theorem resolveDurably_change (h : w.resolveDurably s resolver = some w') :
    InputStep persistence w e w' := by
  unfold World.resolveDurably at h
  split at h
  · next hphase =>
    split at h
    · cases h
      exact .resolverEnds hresolver
    · next request hrow =>
      cases h
      exact .resolvedDurably hresolver hphase (resolvableRequest_eq_some hrow) (.inr rfl)
  · cases h

theorem resolveFails_change {committed : Bool} (h : w.resolveFails s committed resolver = some w') :
    InputStep persistence w e w' := by
  unfold World.resolveFails at h
  split at h
  · next hphase =>
    split at h
    · cases h
      exact .resolverEnds hresolver
    · next request hrow =>
      cases h
      cases committed with
      | false => exact .resolverEnds hresolver
      | true => exact .resolvedDurably hresolver hphase (resolvableRequest_eq_some hrow) (.inl rfl)
  · cases h

theorem resolveLocally_change (h : w.resolveLocally s resolver = some w') :
    InputStep persistence w (.resolveLocally s) w' := by
  unfold World.resolveLocally at h
  split at h
  · cases h
  · next durableRequest hphase =>
    split at h
    · next hpending =>
      split at h
      · cases h
        exact .resolverEnds hresolver
      · cases h
        exact .acceptedDurably hresolver hphase hpending
    · split at h
      · cases h
        exact .resolverEnds hresolver
      · split at h
        · cases h
          exact .resolverEnds hresolver
        · next hreply =>
          split at h
          · cases h
            exact .resolverEnds hresolver
          · next request state hcomplete =>
            cases h
            exact .acceptedLocally hresolver hphase hreply hcomplete

end Resolver

theorem close_change (h : w.close = some w') : Change config persistence w .close w' := by
  unfold World.close at h
  split at h
  · cases h
  · next hopen =>
    cases h
    rw [Bool.not_eq_true] at hopen
    exact .close hopen

/-- A reply variable that holds something is left alone. -/
theorem putReplies_lookup {answer : Except Text HumanResponse} {requests : List RequestId} :
    ∀ {replies : FinMap RequestId (Except Text HumanResponse)} {q : RequestId},
      replies.lookup q = none ∨
        (putReplies answer requests replies).lookup q = replies.lookup q := by
  induction requests with
  | nil => exact .inr rfl
  | cons q₀ requests ih =>
    intro replies q
    unfold putReplies
    rw [List.foldl_cons]
    split
    · exact ih
    · next hnone =>
      by_cases hq : q = q₀
      · exact .inl (hq ▸ hnone)
      · have hrest := @ih (replies.insert q₀ answer) q
        rwa [FinMap.lookup_insert_of_ne hq] at hrest

theorem closeReply_change (h : w.closeReply = some w') : Change config persistence w e w' := by
  unfold World.closeReply at h
  split at h
  · next hcloser =>
    cases h
    exact .closerMoves (.reply hcloser) fun _ => putReplies_lookup
  · cases h

theorem closeKillWorker_change {i : ℕ} (h : w.closeKillWorker i = some w') :
    Change config persistence w e w' := by
  unfold World.closeKillWorker at h
  split at h
  · next workers tasks replies records hcloser =>
    split at h
    · next hi =>
      obtain ⟨worker, hworker, rfl⟩ := kill_eq_some h
      exact .kill hworker (.inr ⟨workers, tasks, replies, records, hcloser, hi⟩)
    · cases h
  · cases h

theorem closeKillTask_change {c : ℕ} (h : w.closeKillTask c = some w') :
    Change config persistence w e w' := by
  unfold World.closeKillTask at h
  split at h
  · split at h
    · obtain ⟨cancellation, hcancel, hnext⟩ := cancelStep_eq_some h
      exact interruptCancel_change hcancel hnext
    · cases h
  · cases h

theorem closeStopped_change (h : w.closeStopped = some w') :
    Change config persistence w e w' := by
  unfold World.closeStopped at h
  split at h
  · next workers tasks records hcloser =>
    split at h
    · next hstopped =>
      cases h
      obtain ⟨hworkers, htasks, hdispatcher⟩ := hstopped
      refine .closerMoves (.stopped hcloser ?_ ?_ hdispatcher) fun _ => .inr rfl
      · intro i hi
        exact isNone_iff_eq_none.mp (List.all_eq_true.mp hworkers i hi)
      · intro c hc
        exact isNone_iff_eq_none.mp (List.all_eq_true.mp htasks c hc)
    · cases h
  · cases h

theorem closePersist_change {record canonical : TurnRecord} {finishedAt : UTCTime}
    (h : w.closePersist persistence record finishedAt canonical = some w') :
    Change config persistence w e w' := by
  unfold World.closePersist at h
  split at h
  · next pending done hcloser =>
    split at h
    · next hanswer =>
      cases h
      rw [World.commit_eq]
      exact .closePersist hcloser hanswer.1 hanswer.2
    · cases h
  · cases h

theorem closePersisted_change (h : w.closePersisted = some w') :
    Change config persistence w e w' := by
  unfold World.closePersisted at h
  split at h
  · next hcloser =>
    cases h
    exact .closerMoves (.persisted hcloser) fun _ => .inr rfl
  · cases h

theorem closeTimesOut_change (h : w.closeTimesOut = some w') :
    Change config persistence w e w' := by
  unfold World.closeTimesOut at h
  split at h
  · next hcloser =>
    cases h
    exact .closerMoves (.ends (by rw [hcloser]; exact Closer.noConfusion)) fun _ => .inr rfl
  · cases h

theorem closePublish_change (h : w.closePublish = some w') :
    Change config persistence w .closePublish w' := by
  unfold World.closePublish at h
  split at h
  · next hcloser =>
    cases h
    exact .closePublish hcloser
  · cases h

theorem abortClose_change (h : w.abortClose = some w') : Change config persistence w e w' := by
  unfold World.abortClose at h
  split at h
  · cases h
  · next hcloser =>
    cases h
    exact .closerMoves (.ends hcloser) fun _ => .inr rfl

theorem release_change {r : ℕ} (h : w.release r = some w') :
    Change config persistence w (.release r) w' := by
  unfold World.release at h
  split at h
  · cases h
  · next key hr =>
    cases h
    exact .release hr

theorem submitReserved_change {r : ℕ} {spec : TurnSpec} {record : TurnRecord}
    (h : w.submitReserved config r spec record = some w') :
    Change config persistence w (.submitReserved r spec record) w' := by
  unfold World.submitReserved at h
  split at h
  · cases h
  · next key hr =>
    split at h
    · next hkey => exact admitTurn_change rfl (fun _ => ⟨r, hkey ▸ hr⟩) h
    · cases h

theorem stopDispatcher_change (h : w.stopDispatcher = some w') :
    Change config persistence w e w' := by
  unfold World.stopDispatcher at h
  split at h
  · next hclosed =>
    cases h
    exact .dispatcherStops hclosed
  · cases h

/-- **Every step is a change.** -/
theorem step_change (h : w.step config persistence e = some w') :
    Change config persistence w e w' := by
  cases e with
  | acquire r key waitForReservation => exact acquire_change h
  | release r => exact release_change h
  | submit spec turnId now => exact admitTurn_change rfl (fun hheld => by cases hheld) h
  | submitReserved r spec record => exact submitReserved_change h
  | dispatch => exact dispatch_change h
  | spawn i => exact spawn_change h
  | stopDispatcher => exact stopDispatcher_change h
  | enter i =>
    obtain ⟨worker, hworker, hnext⟩ := workerStep_eq_some h
    exact enter_change hworker hnext
  | guardFails i err =>
    obtain ⟨worker, hworker, hnext⟩ := workerStep_eq_some h
    exact guardFails_change hworker hnext
  | lookUp i =>
    obtain ⟨worker, hworker, hnext⟩ := workerStep_eq_some h
    exact lookUp_change hworker hnext
  | persistStart i err =>
    obtain ⟨worker, hworker, hnext⟩ := workerStep_eq_some h
    exact persistStart_change hworker hnext
  | markStarted i now =>
    obtain ⟨worker, hworker, hnext⟩ := workerStep_eq_some h
    exact markStarted_change hworker hnext
  | startRunner i =>
    obtain ⟨worker, hworker, hnext⟩ := workerStep_eq_some h
    exact startRunner_change hworker hnext
  | endRunner i err =>
    obtain ⟨worker, hworker, hnext⟩ := workerStep_eq_some h
    exact endRunner_change hworker hnext
  | emit turnId eventType => exact emit_change h
  | readFinal i =>
    obtain ⟨worker, hworker, hnext⟩ := workerStep_eq_some h
    exact readFinal_change hworker hnext
  | persistFinal i finishedAt canonical =>
    obtain ⟨worker, hworker, hnext⟩ := workerStep_eq_some h
    exact persistFinal_change hworker hnext
  | publishFinal i =>
    obtain ⟨worker, hworker, hnext⟩ := workerStep_eq_some h
    exact publishFinal_change hworker hnext
  | leave i =>
    obtain ⟨worker, hworker, hnext⟩ := workerStep_eq_some h
    exact leave_change hworker hnext
  | readStateOnly i =>
    obtain ⟨worker, hworker, hnext⟩ := workerStep_eq_some h
    exact readStateOnly_change hworker hnext
  | persistStateOnly i finishedAt canonical =>
    obtain ⟨worker, hworker, hnext⟩ := workerStep_eq_some h
    exact persistStateOnly_change hworker hnext
  | writeStateOnly i =>
    obtain ⟨worker, hworker, hnext⟩ := workerStep_eq_some h
    exact writeStateOnly_change hworker hnext
  | finish i =>
    obtain ⟨worker, hworker, hnext⟩ := workerStep_eq_some h
    exact finish_change hworker hnext
  | cancel c boundary turnId => exact cancel_change h
  | spawnTask c boundary turnId => exact spawnTask_change h
  | claim c =>
    obtain ⟨cancellation, hcancel, hnext⟩ := cancelStep_eq_some h
    exact claim_change hcancel hnext
  | endHook c =>
    obtain ⟨cancellation, hcancel, hnext⟩ := cancelStep_eq_some h
    exact endHook_change hcancel hnext
  | killWorker c =>
    obtain ⟨cancellation, hcancel, hnext⟩ := cancelStep_eq_some h
    exact killWorker_change hcancel hnext
  | joinWorker c =>
    obtain ⟨cancellation, hcancel, hnext⟩ := cancelStep_eq_some h
    exact joinWorker_change hcancel hnext
  | persistCancel c finishedAt canonical =>
    obtain ⟨cancellation, hcancel, hnext⟩ := cancelStep_eq_some h
    exact persistCancel_change hcancel hnext
  | publishCancel c =>
    obtain ⟨cancellation, hcancel, hnext⟩ := cancelStep_eq_some h
    exact publishCancel_change hcancel hnext
  | interruptCancel c =>
    obtain ⟨cancellation, hcancel, hnext⟩ := cancelStep_eq_some h
    exact interruptCancel_change hcancel hnext
  | releaseClaim c =>
    obtain ⟨cancellation, hcancel, hnext⟩ := cancelStep_eq_some h
    exact releaseClaim_change hcancel hnext
  | requestInput q turnId options now => exact .input (requestInput_change h)
  | createRequest q err =>
    obtain ⟨waiter, hwaiter, hnext⟩ := waiterStep_eq_some h
    exact .input (createRequest_change hwaiter hnext)
  | install q =>
    obtain ⟨waiter, hwaiter, hnext⟩ := waiterStep_eq_some h
    exact .input (install_change hwaiter hnext)
  | takeReply q =>
    obtain ⟨waiter, hwaiter, hnext⟩ := waiterStep_eq_some h
    exact .input (takeReply_change hwaiter hnext)
  | pollTimesOut q =>
    obtain ⟨waiter, hwaiter, hnext⟩ := waiterStep_eq_some h
    exact .input (pollTimesOut_change hwaiter hnext)
  | loseReply q =>
    obtain ⟨waiter, hwaiter, hnext⟩ := waiterStep_eq_some h
    exact .input (loseReply_change hwaiter hnext)
  | load q =>
    obtain ⟨waiter, hwaiter, hnext⟩ := waiterStep_eq_some h
    exact .input (load_change hwaiter hnext)
  | loadFails q err =>
    obtain ⟨waiter, hwaiter, hnext⟩ := waiterStep_eq_some h
    exact .input (loadFails_change hwaiter hnext)
  | complete q =>
    obtain ⟨waiter, hwaiter, hnext⟩ := waiterStep_eq_some h
    exact .input (complete_change hwaiter hnext)
  | interruptWaiter q =>
    obtain ⟨waiter, hwaiter, hnext⟩ := waiterStep_eq_some h
    exact .input (interruptWaiter_change hwaiter hnext)
  | cleanUp q =>
    obtain ⟨waiter, hwaiter, hnext⟩ := waiterStep_eq_some h
    exact .input (cleanUp_change hwaiter hnext)
  | resolve s boundary q response => exact .input (resolve_change h)
  | resolveDurably s =>
    obtain ⟨resolver, hresolver, hnext⟩ := resolverStep_eq_some h
    exact .input (resolveDurably_change hresolver hnext)
  | resolveFails s committed =>
    obtain ⟨resolver, hresolver, hnext⟩ := resolverStep_eq_some h
    exact .input (resolveFails_change hresolver hnext)
  | resolveLocally s =>
    obtain ⟨resolver, hresolver, hnext⟩ := resolverStep_eq_some h
    exact .input (resolveLocally_change hresolver hnext)
  | close => exact close_change h
  | closeReply => exact closeReply_change h
  | closeKillWorker i => exact closeKillWorker_change h
  | closeKillTask c => exact closeKillTask_change h
  | closeStopped => exact closeStopped_change h
  | closePersist record finishedAt canonical => exact closePersist_change h
  | closePersisted => exact closePersisted_change h
  | closeTimesOut => exact closeTimesOut_change h
  | closePublish => exact closePublish_change h
  | abortClose => exact abortClose_change h

end Steps

end Server
end HaskellAgent
