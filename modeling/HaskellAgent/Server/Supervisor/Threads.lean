import HaskellAgent.Server.Supervisor.Slots

/-!
# How the threads of the supervisor change
-/

namespace HaskellAgent

namespace Server

/-- The phases that a worker goes to, and what happens there. -/
inductive PhaseStep (w : World) (e : SupervisorEvent) (w' : World) (i : ℕ) (worker : Worker) :
    WorkerPhase → Prop
  | moves {phase : WorkerPhase} (hmoves : WorkerMoves w worker phase)
      (hstate : w'.state = w.state) : PhaseStep w e w' i worker phase
  | marked {now : UTCTime} {state : SupervisorState} (hphase : worker.phase = .marking)
      (hmark : markTurnStarted now worker.turnId worker.spec w.state = some state)
      (hstate : w'.state = state) : PhaseStep w e w' i worker .marked
  | runs (hevent : e = .startRunner i) (hphase : worker.phase = .marked)
      (hstate : w'.state = w.state)
      (hstarts : w'.runnerStarts = w.runnerStarts ++ [worker.turnId]) :
      PhaseStep w e w' i worker .running
  | commits {record canonical : TurnRecord} {finishedAt : UTCTime} {outcome : TurnTerminalOutcome}
      {phase : WorkerPhase} {persistence : TurnPersistence}
      (hcommits : WorkerCommits worker.phase record outcome canonical phase)
      (hanswer : w.answers persistence record finishedAt outcome canonical = true)
      (hstate : w'.state = w.state)
      (hcommitted : w'.committed = (w.commit canonical).committed) :
      PhaseStep w e w' i worker phase
  | published {canonical : TurnRecord} (hevent : e = .publishFinal i)
      (hphase : worker.phase = .publishing canonical)
      (hstate : w'.state = publishTerminalRecord canonical w.state) :
      PhaseStep w e w' i worker .leaving
  | written {canonical : TurnRecord} (hevent : e = .writeStateOnly i)
      (hphase : worker.phase = .failingWrite canonical)
      (hstate : w'.state = publishStateOnly worker.turnId canonical w.state) :
      PhaseStep w e w' i worker .finishing
  | killed (hcause : (∃ c cancellation record doomed,
          w.cancellations.lookup c = some cancellation ∧
          cancellation.phase = .stopping record (some i) doomed) ∨
        ∃ workers tasks replies records,
          w.closer = .stopping workers tasks replies records ∧ i ∈ workers)
      (hstate : w'.state = w.state) : PhaseStep w e w' i worker .finishing

/-- What a step makes of a worker. -/
inductive WorkerChange (w : World) (e : SupervisorEvent) (w' : World) (i : ℕ) : Worker → Prop
  | same {worker : Worker} (hworker : w.workers.lookup i = some worker) :
      WorkerChange w e w' i worker
  | spawned {turnId : TurnId} {spec : TurnSpec}
      (hdispatcher : w.dispatcher = .reserved turnId spec) (hnew : i = w.workerThreads)
      (haccepted : acceptsWorker turnId spec w.state = true)
      (hstate : w'.state = registerWorker turnId i w.state)
      (hthreads : w'.workerThreads = i + 1) :
      WorkerChange w e w' i ⟨turnId, spec, .entering⟩
  | moved {worker : Worker} {phase : WorkerPhase} (hworker : w.workers.lookup i = some worker)
      (hstep : PhaseStep w e w' i worker phase) :
      WorkerChange w e w' i { worker with phase := phase }

/-- What a step makes of a call of `cancelTurn`. -/
inductive CancelChange (w : World) (e : SupervisorEvent) (w' : World) (c : ℕ) :
    Cancellation → Prop
  | same {cancellation : Cancellation} (hcancel : w.cancellations.lookup c = some cancellation) :
      CancelChange w e w' c cancellation
  | begins {cancellation : Cancellation} (hphase : cancellation.phase = .claiming) :
      CancelChange w e w' c cancellation
  | claims {cancellation : Cancellation} {record : TurnRecord} {worker : Option ℕ}
      {inputs : List RequestId} {state : SupervisorState} (hevent : e = .claim c)
      (hcancel : w.cancellations.lookup c = some cancellation)
      (hclaim : claimCancellation cancellation.boundary cancellation.turnId w.state =
        .claimed record worker inputs state) (hstate : w'.state = state) :
      CancelChange w e w' c { cancellation with phase := .interrupting record worker }
  | moved {cancellation : Cancellation} {phase : CancelPhase}
      (hcancel : w.cancellations.lookup c = some cancellation)
      (hmoves : CancelMoves w cancellation.phase phase) (hstate : w'.state = w.state) :
      CancelChange w e w' c { cancellation with phase := phase }
  | commits {cancellation : Cancellation} {record canonical : TurnRecord} {finishedAt : UTCTime}
      {persistence : TurnPersistence} (hcancel : w.cancellations.lookup c = some cancellation)
      (hphase : cancellation.phase = .persisting record)
      (hanswer : w.answers persistence record finishedAt .turnWasCancelled canonical = true)
      (hstate : w'.state = w.state)
      (hcommitted : w'.committed = (w.commit canonical).committed) :
      CancelChange w e w' c { cancellation with phase := .publishing canonical }

/-- The session that a step takes out of the active ones. -/
def World.clearedSession (w : World) : SupervisorEvent → Option SessionKey
  | .release r => w.reservations.lookup r
  | .finish i =>
      match w.workers.lookup i with
      | none => none
      | some worker =>
          if (w.state.stateTurns.lookup worker.turnId).any (·.turnSlotCancelling) then none
          else some worker.spec.key
  | .publishFinal i =>
      match w.workers.lookup i with
      | some ⟨_, _, .publishing canonical⟩ =>
          if publishes canonical w.state then some canonical.key else none
      | _ => none
  | .publishCancel c =>
      match w.cancellations.lookup c with
      | some ⟨_, _, _, .publishing canonical⟩ =>
          if publishes canonical w.state then some canonical.key else none
      | _ => none
  | .closePublish =>
      match w.closer with
      | .publishing (canonical :: _) =>
          if publishes canonical w.state then some canonical.key else none
      | _ => none
  | _ => none

section Change

variable {config : SupervisorConfig} {persistence : TurnPersistence} {w w' : World}
  {e : SupervisorEvent} {turnId : TurnId} {i c : ℕ}

/-- A worker of the new map is the one that was put there, or an old one. -/
theorem WorkerChange.insert {j : ℕ} {worker worker' : Worker} {phase : WorkerPhase}
    (hworker : w.workers.lookup i = some worker) (hstep : PhaseStep w e w' i worker phase)
    (h : (w.workers.insert i { worker with phase := phase }).lookup j = some worker') :
    WorkerChange w e w' j worker' := by
  rw [FinMap.lookup_insert] at h
  split at h
  · next heq =>
    subst heq
    cases h
    exact .moved hworker hstep
  · exact .same h

theorem WorkerChange.input (hinput : InputStep persistence w e w') {worker : Worker}
    (h : w'.workers.lookup i = some worker) : WorkerChange w e w' i worker := by
  cases hinput <;> exact .same h

/-- **Every step changes every worker in one of these ways.** -/
theorem worker_change (hchange : Change config persistence w e w') {worker : Worker}
    (h : w'.workers.lookup i = some worker) : WorkerChange w e w' i worker := by
  cases hchange with
  | @spawn _ j turnId spec hdispatcher hnew haccepted =>
    have hlookup : (w.workers.insert j ⟨turnId, spec, .entering⟩).lookup i = some worker := h
    rw [FinMap.lookup_insert] at hlookup
    split at hlookup
    · next heq =>
      subst heq
      cases hlookup
      exact .spawned hdispatcher hnew haccepted rfl rfl
    · exact .same hlookup
  | workerMoves hworker hmoves => exact .insert hworker (.moves hmoves rfl) h
  | markStarted hworker hphase hmark => exact .insert hworker (.marked hphase hmark rfl) h
  | startRunner hworker hphase => exact .insert hworker (.runs rfl hphase rfl rfl) h
  | workerCommits hworker hcommits hanswer =>
    exact .insert hworker (.commits hcommits hanswer rfl rfl) h
  | publishFinal hworker hphase => exact .insert hworker (.published rfl hphase rfl) h
  | writeStateOnly hworker hphase => exact .insert hworker (.written rfl hphase rfl) h
  | @finish j _ hworker hphase =>
    have hlookup : (w.workers.delete j).lookup i = some worker := h
    rw [FinMap.lookup_delete] at hlookup
    split at hlookup
    · cases hlookup
    · exact .same hlookup
  | kill hworker hcause => exact .insert hworker (.killed hcause rfl) h
  | input hinput => exact .input hinput h
  | _ => exact .same h

theorem workerThreads_mono (h : Change config persistence w e w') :
    w.workerThreads ≤ w'.workerThreads := by
  cases h with
  | spawn _ hnew =>
    rw [← hnew]
    exact Nat.le_succ _
  | input hinput => cases hinput <;> exact Nat.le_refl _
  | _ => exact Nat.le_refl _

theorem CancelChange.insert {d : ℕ} {cancellation cancellation' : Cancellation}
    (hnew : CancelChange w e w' c cancellation)
    (h : (w.cancellations.insert c cancellation).lookup d = some cancellation') :
    CancelChange w e w' d cancellation' := by
  rw [FinMap.lookup_insert] at h
  split at h
  · next heq =>
    subst heq
    cases h
    exact hnew
  · exact .same h

variable {cancellation : Cancellation}

theorem CancelChange.delete {d : ℕ}
    (h : (w.cancellations.delete d).lookup c = some cancellation) :
    CancelChange w e w' c cancellation := by
  rw [FinMap.lookup_delete] at h
  split at h
  · cases h
  · exact .same h

theorem CancelChange.input (hinput : InputStep persistence w e w')
    (h : w'.cancellations.lookup c = some cancellation) : CancelChange w e w' c cancellation := by
  cases hinput <;> exact .same h

/-- **Every step changes every cancellation in one of these ways.** -/
theorem cancellation_change (hchange : Change config persistence w e w')
    (h : w'.cancellations.lookup c = some cancellation) : CancelChange w e w' c cancellation := by
  cases hchange with
  | cancelBegins _ hphase => exact .insert (.begins hphase) h
  | cancelEnds => exact .delete h
  | claim hcancel hphase hclaim => exact .insert (.claims rfl hcancel hclaim rfl) h
  | cancelMoves hcancel hmoves => exact .insert (.moved hcancel hmoves rfl) h
  | cancelCommits hcancel hphase hanswer =>
    exact .insert (.commits hcancel hphase hanswer rfl rfl) h
  | publishCancel | releaseClaim => exact .delete h
  | input hinput => exact .input hinput h
  | _ => exact .same h

/-! ### The turns that have a worker -/

/-- A step of an input leaves the rest of the state alone, up to the turns and the events. -/
theorem InputStep.frame (h : InputStep persistence w e w') :
    w'.state.stateQueue = w.state.stateQueue ∧ w'.state.stateWorkers = w.state.stateWorkers ∧
      w'.state.stateActiveSessions = w.state.stateActiveSessions ∧
      w'.state.stateClosed = w.state.stateClosed := by
  cases h with
  | installed _ _ hinstall =>
    obtain ⟨slot, -, -, -, rfl⟩ := installInput_eq_ok hinstall
    exact ⟨rfl, rfl, rfl, rfl⟩
  | completed _ _ hcomplete | acceptedLocally _ _ _ hcomplete =>
    obtain ⟨-, rfl⟩ := completePendingInput_eq_some hcomplete
    exact ⟨rfl, rfl, rfl, rfl⟩
  | _ => exact ⟨rfl, rfl, rfl, rfl⟩

/-- A publication writes a turn, an event and the active sessions. -/
theorem publishTerminalRecord_frame (canonical : TurnRecord) (state : SupervisorState) :
    (publishTerminalRecord canonical state).stateQueue = state.stateQueue ∧
      (publishTerminalRecord canonical state).stateWorkers = state.stateWorkers ∧
      (publishTerminalRecord canonical state).stateClosed = state.stateClosed ∧
      (publishTerminalRecord canonical state).statePendingInputs = state.statePendingInputs := by
  unfold publishTerminalRecord
  repeat' split
  all_goals exact ⟨rfl, rfl, rfl, rfl⟩

/-- What a step makes of the turns that have a worker. -/
inductive RegistrationChange (w w' : World) : Prop
  | same (hstate : w'.state.stateWorkers = w.state.stateWorkers)
      (hworkers : ∀ i worker, w.workers.lookup i = some worker →
        ∃ phase, w'.workers.lookup i = some { worker with phase := phase })
  | spawned {i : ℕ} {turnId : TurnId} {spec : TurnSpec}
      (hdispatcher : w.dispatcher = .reserved turnId spec) (hnew : i = w.workerThreads)
      (haccepted : acceptsWorker turnId spec w.state = true)
      (hworkers : w'.workers = w.workers.insert i ⟨turnId, spec, .entering⟩)
      (hstate : w'.state = registerWorker turnId i w.state) (hchoosing : w'.dispatcher = .choosing)
  | finished {i : ℕ} {worker : Worker} (hworker : w.workers.lookup i = some worker)
      (hphase : worker.phase = .finishing) (hworkers : w'.workers = w.workers.delete i)
      (hstate : w'.state = finishWorker worker.turnId worker.spec w.state)
      (hdispatcher : w'.dispatcher = w.dispatcher)

theorem RegistrationChange.phase {worker : Worker} {phase : WorkerPhase}
    (hworker : w.workers.lookup i = some worker)
    (hstate : w'.state.stateWorkers = w.state.stateWorkers)
    (hworkers : w'.workers = w.workers.insert i { worker with phase := phase }) :
    RegistrationChange w w' := by
  refine .same hstate fun j other hother => ?_
  rw [hworkers, FinMap.lookup_insert]
  split
  · next heq =>
    subst heq
    rw [hworker] at hother
    cases hother
    exact ⟨phase, rfl⟩
  · exact ⟨other.phase, hother⟩

theorem RegistrationChange.frame (hstate : w'.state.stateWorkers = w.state.stateWorkers)
    (hworkers : w'.workers = w.workers) : RegistrationChange w w' := by
  refine .same hstate fun j other hother => ?_
  rw [hworkers]
  exact ⟨other.phase, hother⟩

/-- **Workers are registered where they are spawned, until they finish.** -/
theorem registration_change (h : Change config persistence w e w') : RegistrationChange w w' := by
  cases h with
  | admits _ _ hadmitted =>
    obtain ⟨-, rfl⟩ := enqueueTurnRecord_eq_ok hadmitted
    exact .frame rfl rfl
  | dispatch _ hreserve =>
    obtain ⟨slot, tenantId, -, -, rfl⟩ := reserveRunnable_eq_reserved hreserve
    exact .frame rfl rfl
  | spawn hdispatcher hnew haccepted => exact .spawned hdispatcher hnew haccepted rfl rfl rfl
  | workerMoves hworker => exact .phase hworker rfl rfl
  | markStarted hworker _ hmark =>
    obtain ⟨slot, -, -, -, -, rfl⟩ := markTurnStarted_eq_some hmark
    exact .phase hworker rfl rfl
  | startRunner hworker | workerCommits hworker => exact .phase hworker rfl rfl
  | publishFinal hworker => exact .phase hworker (publishTerminalRecord_frame _ _).2.1 rfl
  | writeStateOnly hworker => exact .phase hworker rfl rfl
  | finish hworker hphase => exact .finished hworker hphase rfl rfl rfl
  | kill hworker => exact .phase hworker rfl rfl
  | claim _ _ hclaim =>
    obtain ⟨slot, -, -, -, -, -, -, rfl⟩ := claimCancellation_eq_claimed hclaim
    exact .frame rfl rfl
  | publishCancel | closePublish => exact .frame (publishTerminalRecord_frame _ _).2.1 rfl
  | input hinput => exact .frame hinput.frame.2.1 (by cases hinput <;> rfl)
  | _ => exact .frame rfl rfl

/-! ### The dispatcher -/

/-- What the dispatcher holds has been reserved in this step or before. -/
theorem dispatcher_change (h : Change config persistence w e w') {spec : TurnSpec}
    (hdispatcher : w'.dispatcher = .reserved turnId spec) :
    w.dispatcher = .reserved turnId spec ∨
      (w.dispatcher = .choosing ∧ ∃ slot tenantId, Reservable config turnId slot w.state ∧
        spec = slot.turnSlotSpec ∧ w'.state = { w.state with
          stateQueue := w.state.stateQueue.filter (· ≠ turnId)
          stateTurns := w.state.stateTurns.insert turnId (reservedSlot slot)
          stateActiveSessions := insert slot.turnSlotRecord.key w.state.stateActiveSessions
          stateLastScheduledTenant := some tenantId }) := by
  cases h with
  | dispatch hchoosing hreserve =>
    cases hdispatcher
    obtain ⟨slot, tenantId, hreservable, hspec, hstate⟩ := reserveRunnable_eq_reserved hreserve
    exact .inr ⟨hchoosing, slot, tenantId, hreservable, hspec, hstate⟩
  | dispatcherStops | spawn | spawnRejected => cases hdispatcher
  | input hinput =>
    refine .inl ?_
    cases hinput <;> exact hdispatcher
  | _ => exact .inl hdispatcher

/-! ### Sessions -/

/-- A publication takes out the session of its turn. -/
theorem session_kept_by_publish {canonical : TurnRecord} {state : SupervisorState}
    {key : SessionKey} (hkey : key ∈ state.stateActiveSessions) :
    key ∈ (publishTerminalRecord canonical state).stateActiveSessions ∨
      (if publishes canonical state then some canonical.key else none) = some key := by
  cases hpublishes : publishes canonical state with
  | true =>
    obtain ⟨slot, -, -, heq⟩ := publishTerminalRecord_of_publishes hpublishes
    rw [heq, if_pos rfl]
    by_cases hsame : canonical.key = key
    · exact .inr (congrArg some hsame)
    · exact .inl (Finset.mem_erase.mpr ⟨fun h => hsame h.symm, hkey⟩)
  | false =>
    rw [publishTerminalRecord_of_not_publishes hpublishes]
    exact .inl hkey

/-- **A session stays active until a step takes it out.** -/
theorem session_kept (h : Change config persistence w e w') {key : SessionKey}
    (hkey : key ∈ w.state.stateActiveSessions) :
    key ∈ w'.state.stateActiveSessions ∨ (w.clearedSession e = some key ∧
      ∀ r, e = .release r → w'.reservations = w.reservations.delete r) := by
  cases h with
  | acquire => exact .inl (Finset.mem_insert_of_mem hkey)
  | @release r other hr =>
    by_cases hsame : other = key
    · refine .inr ⟨hsame ▸ hr, fun r' hevent => ?_⟩
      cases hevent
      rfl
    · exact .inl (Finset.mem_erase.mpr ⟨fun h => hsame h.symm, hkey⟩)
  | admits _ _ hadmitted =>
    obtain ⟨-, rfl⟩ := enqueueTurnRecord_eq_ok hadmitted
    exact .inl hkey
  | dispatch _ hreserve =>
    obtain ⟨slot, tenantId, -, -, rfl⟩ := reserveRunnable_eq_reserved hreserve
    exact .inl (Finset.mem_insert_of_mem hkey)
  | markStarted _ _ hmark =>
    obtain ⟨slot, -, -, -, -, rfl⟩ := markTurnStarted_eq_some hmark
    exact .inl hkey
  | @publishFinal i worker canonical hworker hphase =>
    refine (session_kept_by_publish hkey).imp id fun hcleared => ⟨?_, nofun⟩
    obtain ⟨turnId, spec, phase⟩ := worker
    cases hphase
    unfold World.clearedSession
    dsimp only
    rw [hworker]
    exact hcleared
  | @finish i worker hworker =>
    unfold World.clearedSession finishWorker
    dsimp only
    rw [hworker]
    dsimp only
    split
    · exact .inl hkey
    · by_cases hsame : worker.spec.key = key
      · exact .inr ⟨congrArg some hsame, nofun⟩
      · exact .inl (Finset.mem_erase.mpr ⟨fun h => hsame h.symm, hkey⟩)
  | claim _ _ hclaim =>
    obtain ⟨slot, -, -, -, -, -, -, rfl⟩ := claimCancellation_eq_claimed hclaim
    exact .inl hkey
  | @publishCancel c cancellation canonical _ hcancel hphase =>
    refine (session_kept_by_publish hkey).imp id fun hcleared => ⟨?_, nofun⟩
    obtain ⟨turnId, boundary, task, phase⟩ := cancellation
    cases hphase
    unfold World.clearedSession
    dsimp only
    rw [hcancel]
    exact hcleared
  | input hinput =>
    rw [hinput.frame.2.2.1]
    exact .inl hkey
  | @closePublish canonical canonicals hcloser =>
    refine (session_kept_by_publish hkey).imp id fun hcleared => ⟨?_, nofun⟩
    unfold World.clearedSession
    dsimp only
    rw [hcloser]
    exact hcleared
  | _ => exact .inl hkey

/-- A reservation was held before, or it has been acquired now. -/
theorem reservation_change (h : Change config persistence w e w') {r : ℕ} {key : SessionKey}
    (hr : w'.reservations.lookup r = some key) :
    w.reservations.lookup r = some key ∨
      (sessionBusy key w.state.stateTurns = false ∧ key ∉ w.state.stateActiveSessions ∧
        w'.state.stateTurns = w.state.stateTurns ∧ key ∈ w'.state.stateActiveSessions ∧
        w'.reservations = w.reservations.insert r key) := by
  cases h with
  | @acquire _ s other hnew hopen hidle hfree =>
    have hlookup : (w.reservations.insert s other).lookup r = some key := hr
    rw [FinMap.lookup_insert] at hlookup
    split at hlookup
    · next heq =>
      subst heq
      cases hlookup
      exact .inr ⟨hidle, hfree, rfl, Finset.mem_insert_self _ _, rfl⟩
    · exact .inl hlookup
  | @release s other =>
    have hlookup : (w.reservations.delete s).lookup r = some key := hr
    rw [FinMap.lookup_delete] at hlookup
    split at hlookup
    · cases hlookup
    · exact .inl hlookup
  | input hinput =>
    refine .inl ?_
    cases hinput <;> exact hr
  | _ => exact .inl hr

/-! ### Shutdown -/

section

variable (h : Change config persistence w e w')
include h

/-- **The supervisor closes once, and stays so.** -/
theorem stateClosed_change :
    w'.state.stateClosed = w.state.stateClosed ∨
      (w.state.stateClosed = false ∧ w'.state = closeState w.state) := by
  cases h with
  | admits _ _ hadmitted =>
    obtain ⟨-, rfl⟩ := enqueueTurnRecord_eq_ok hadmitted
    exact .inl rfl
  | dispatch _ hreserve =>
    obtain ⟨slot, tenantId, -, -, rfl⟩ := reserveRunnable_eq_reserved hreserve
    exact .inl rfl
  | markStarted _ _ hmark =>
    obtain ⟨slot, -, -, -, -, rfl⟩ := markTurnStarted_eq_some hmark
    exact .inl rfl
  | publishFinal => exact .inl (publishTerminalRecord_frame _ _).2.2.1
  | claim _ _ hclaim =>
    obtain ⟨slot, -, -, -, -, -, -, rfl⟩ := claimCancellation_eq_claimed hclaim
    exact .inl rfl
  | publishCancel => exact .inl (publishTerminalRecord_frame _ _).2.2.1
  | input hinput => exact .inl hinput.frame.2.2.2
  | close hopen => exact .inr ⟨hopen, rfl⟩
  | closePublish => exact .inl (publishTerminalRecord_frame _ _).2.2.1
  | _ => exact .inl rfl

theorem stateClosed_mono (hclosed : w.state.stateClosed = true) : w'.state.stateClosed = true := by
  rcases stateClosed_change h with hsame | ⟨hopen, -⟩
  · rw [hsame]
    exact hclosed
  · rw [hopen] at hclosed
    cases hclosed

/-- The thread that closes the supervisor begins with closing it. -/
theorem closer_change (hcloser : w'.closer ≠ .absent) :
    w.closer ≠ .absent ∨ w'.state.stateClosed = true := by
  cases h with
  | close => exact .inr rfl
  | closerMoves hmoves =>
    refine .inl ?_
    cases hmoves with
    | reply hbefore | stopped hbefore | persisted hbefore =>
      rw [hbefore]
      exact Closer.noConfusion
    | ends hbefore => exact hbefore
  | closePersist hbefore | closePublish hbefore =>
    rw [hbefore]
    exact .inl Closer.noConfusion
  | input hinput =>
    refine .inl ?_
    cases hinput <;> exact hcloser
  | _ => exact .inl hcloser

end

/-! ### Waiters -/

theorem waiter_insert {waiters : FinMap RequestId Waiter} {q r : RequestId} {waiter other : Waiter}
    {phase : WaiterPhase} (hwaiter : waiters.lookup q = some waiter)
    (hother : waiters.lookup r = some other) :
    ∃ phase', (waiters.insert q { waiter with phase := phase }).lookup r
      = some { other with phase := phase' } := by
  rw [FinMap.lookup_insert]
  split
  · next heq =>
    subst heq
    rw [hwaiter] at hother
    cases hother
    exact ⟨phase, rfl⟩
  · exact ⟨other.phase, hother⟩

/-- A call of `requestTurnInput` keeps its request. -/
theorem waiter_kept (h : Change config persistence w e w') {q : RequestId} {waiter : Waiter}
    (hwaiter : w.waiters.lookup q = some waiter) :
    ∃ phase, w'.waiters.lookup q = some { waiter with phase := phase } := by
  cases h with
  | input hinput =>
    cases hinput with
    | @requestInput _ r turnId key record request hnew =>
      have hne : q ≠ r := by
        rintro rfl
        rw [hnew] at hwaiter
        cases hwaiter
      refine ⟨waiter.phase, ?_⟩
      show (w.waiters.insert r ⟨request, .creating⟩).lookup q = _
      rw [FinMap.lookup_insert_of_ne hne]
      exact hwaiter
    | createFails hother | created hother | installFails hother | installed hother
    | tookReply hother | timedOut hother | lostReply hother | loaded hother | loadedNothing hother
    | loadFailed hother | completed hother | completeFails hother | interrupted hother =>
      exact waiter_insert hother hwaiter
    | _ => exact ⟨waiter.phase, hwaiter⟩
  | _ => exact ⟨waiter.phase, hwaiter⟩

theorem waiter_of_insert {waiters : FinMap RequestId Waiter} {q r : RequestId}
    {waiter other : Waiter} {phase : WaiterPhase} (hwaiter : waiters.lookup q = some waiter)
    (hother : (waiters.insert q { waiter with phase := phase }).lookup r = some other) :
    ∃ phase', waiters.lookup r = some { other with phase := phase' } := by
  rw [FinMap.lookup_insert] at hother
  split at hother
  · next heq =>
    subst heq
    cases hother
    exact ⟨waiter.phase, hwaiter⟩
  · exact ⟨other.phase, hother⟩

/-- A call of `requestTurnInput` was there before, or a runner begins it. -/
theorem waiter_of_change (h : Change config persistence w e w') {q : RequestId} {waiter : Waiter}
    (hwaiter : w'.waiters.lookup q = some waiter) :
    (∃ phase, w.waiters.lookup q = some { waiter with phase := phase }) ∨
      (w.waiters.lookup q = none ∧ waiter.phase = .creating ∧
        waiter.request.humanRequestId = q ∧
        ∃ key, w.control waiter.request.humanRequestTurnId = some key) := by
  cases h with
  | input hinput =>
    cases hinput with
    | @requestInput _ r turnId key record request hnew hcontrol _ hid hturn =>
      have hlookup : (w.waiters.insert r ⟨request, .creating⟩).lookup q = some waiter := hwaiter
      rw [FinMap.lookup_insert] at hlookup
      split at hlookup
      · next heq =>
        cases hlookup
        refine .inr ⟨heq ▸ hnew, rfl, hid.trans heq.symm, key, ?_⟩
        rw [hturn]
        exact hcontrol
      · exact .inl ⟨waiter.phase, hlookup⟩
    | createFails hother | created hother | installFails hother | installed hother
    | tookReply hother | timedOut hother | lostReply hother | loaded hother | loadedNothing hother
    | loadFailed hother | completed hother | completeFails hother | interrupted hother =>
      exact .inl (waiter_of_insert hother hwaiter)
    | _ => exact .inl ⟨waiter.phase, hwaiter⟩
  | _ => exact .inl ⟨waiter.phase, hwaiter⟩

/-- A pending request was pending before, or its waiter installs it. -/
theorem pending_of_change (h : Change config persistence w e w') {q : RequestId}
    {request : HumanRequest} (hpending : w'.state.statePendingInputs.lookup q = some request) :
    w.state.statePendingInputs.lookup q = some request ∨
      ∃ p waiter, e = .install p ∧ w.waiters.lookup p = some waiter ∧
        waiter.phase = .installing ∧ waiter.request = request ∧ request.humanRequestId = q := by
  cases h with
  | admits _ _ hadmitted =>
    obtain ⟨-, rfl⟩ := enqueueTurnRecord_eq_ok hadmitted
    exact .inl hpending
  | dispatch _ hreserve =>
    obtain ⟨slot, tenantId, -, -, rfl⟩ := reserveRunnable_eq_reserved hreserve
    exact .inl hpending
  | markStarted _ _ hmark =>
    obtain ⟨slot, -, -, -, -, rfl⟩ := markTurnStarted_eq_some hmark
    exact .inl hpending
  | publishFinal => exact .inl ((publishTerminalRecord_frame _ _).2.2.2 ▸ hpending)
  | claim _ _ hclaim =>
    obtain ⟨slot, -, -, -, -, -, -, rfl⟩ := claimCancellation_eq_claimed hclaim
    exact .inl (FinMap.lookup_filter_eq_some.mp hpending).1
  | publishCancel => exact .inl ((publishTerminalRecord_frame _ _).2.2.2 ▸ hpending)
  | close => cases hpending
  | closePublish => exact .inl ((publishTerminalRecord_frame _ _).2.2.2 ▸ hpending)
  | input hinput =>
    cases hinput with
    | @installed p waiter _ hwaiter hphase hinstall =>
      obtain ⟨slot, -, -, -, rfl⟩ := installInput_eq_ok hinstall
      have hlookup : (w.state.statePendingInputs.insert waiter.request.humanRequestId
        waiter.request).lookup q = some request := hpending
      rw [FinMap.lookup_insert] at hlookup
      split at hlookup
      · next heq =>
        cases hlookup
        exact .inr ⟨p, waiter, rfl, hwaiter, hphase, rfl, heq.symm⟩
      · exact .inl hlookup
    | @completed p _ _ _ _ _ _ hcomplete =>
      obtain ⟨-, rfl⟩ := completePendingInput_eq_some hcomplete
      have hlookup : (w.state.statePendingInputs.delete p).lookup q = some request := hpending
      rw [FinMap.lookup_delete] at hlookup
      split at hlookup
      · cases hlookup
      · exact .inl hlookup
    | @acceptedLocally _ resolver _ _ _ _ _ _ hcomplete =>
      obtain ⟨-, rfl⟩ := completePendingInput_eq_some hcomplete
      have hlookup : (w.state.statePendingInputs.delete resolver.requestId).lookup q
        = some request := hpending
      rw [FinMap.lookup_delete] at hlookup
      split at hlookup
      · cases hlookup
      · exact .inl hlookup
    | _ => exact .inl hpending
  | _ => exact .inl hpending

end Change

end Server

end HaskellAgent
