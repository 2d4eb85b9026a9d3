import HaskellAgent.Server.Supervisor.Claims

/-!
# No turn is stranded

A turn that is active and not being cancelled is waiting in the queue, or it has a worker that goes
on, or the dispatcher is about to give it one.

Two steps can leave a turn that nobody will end.  A cancellation that gives up puts its turn back to
nobody, unless there is a worker; and a session that is taken out of the active ones while the
dispatcher holds a turn of it makes that turn's worker be rejected.
-/

open Option FinMap Machine

namespace HaskellAgent
namespace Server

/-- The worker has given its turn up, or has ended it. -/
def WorkerPhase.spent : WorkerPhase → Bool
  | .leaving | .finishing => true
  | _ => false

/-- **The turn waits in the queue, or has a worker that goes on, or is about to be given one.** -/
inductive Attended (w : World) (turnId : TurnId) (slot : TurnSlot) : Prop
  | queued (hqueued : slot.status = .turnQueued) (hmem : turnId ∈ w.state.stateQueue)
  | worker {i : ℕ} {worker : Worker} (hregistered : w.state.stateWorkers.lookup turnId = some i)
      (hworker : w.workers.lookup i = some worker) (hspent : worker.phase.spent = false)
  | reserved {spec : TurnSpec} (hdispatcher : w.dispatcher = .reserved turnId spec)
      (haccepted : acceptsWorker turnId spec w.state = true)

/-- The turn has a worker that goes on, or is about to be given one. -/
def World.willEnd (w : World) (turnId : TurnId) : Bool :=
  ((w.state.stateWorkers.lookup turnId).any fun i =>
    (w.workers.lookup i).any fun worker => !worker.phase.spent) ||
  match w.dispatcher with
  | .reserved other spec => decide (other = turnId) && acceptsWorker turnId spec w.state
  | _ => false

/-- The session of the turn that the dispatcher holds, if the turn runs on. -/
def World.reservedSession (w : World) : Option SessionKey :=
  match w.dispatcher with
  | .reserved turnId spec =>
      if (w.state.stateTurns.lookup turnId).any fun slot => slot.active && !slot.turnSlotCancelling
      then some spec.key
      else none
  | _ => none

/-- No turn is admitted again; and before the supervisor closes, a cancellation gives up only a turn
that will end, and the session of the turn that the dispatcher holds stays active. -/
def KeepsTurns (w : World) (e : SupervisorEvent) : Prop :=
  FreshAdmission w e ∧ (w.state.stateClosed = false →
    (∀ slot ∈ w.reopened e, w.willEnd slot.turnSlotRecord.turnRecordId = true) ∧
      ∀ key ∈ w.clearedSession e, w.reservedSession ≠ some key)

instance (w : World) (e : SupervisorEvent) : Decidable (KeepsTurns w e) := by
  unfold KeepsTurns
  infer_instance

section Step

variable {config : SupervisorConfig} {persistence : TurnPersistence} {w w' : World}
  {e : SupervisorEvent} {turnId : TurnId} {i : ℕ}

theorem willEnd_eq_true (h : w.willEnd turnId = true) :
    (∃ i worker, w.state.stateWorkers.lookup turnId = some i ∧ w.workers.lookup i = some worker ∧
        worker.phase.spent = false) ∨
      ∃ spec, w.dispatcher = .reserved turnId spec ∧ acceptsWorker turnId spec w.state = true := by
  unfold World.willEnd at h
  rw [Bool.or_eq_true, Option.any_eq_true] at h
  rcases h with ⟨i, hregistered, hworker⟩ | hreserved
  · obtain ⟨worker, hworker, hspent⟩ := (Option.any_eq_true _ _).mp hworker
    rw [Bool.not_eq_true'] at hspent
    exact .inl ⟨i, worker, hregistered, hworker, hspent⟩
  · split at hreserved
    · next other spec hdispatcher =>
      rw [Bool.and_eq_true, decide_eq_true_eq] at hreserved
      obtain ⟨rfl, haccepted⟩ := hreserved
      exact .inr ⟨spec, hdispatcher, haccepted⟩
    · cases hreserved

/-! ### The end of a turn closes it -/

theorem not_open_of_publish {canonical : TurnRecord} (hended : canonical.active = false)
    (hstate : w'.state = publishTerminalRecord canonical w.state) :
    ¬ OpenTurn w' canonical.turnRecordId := by
  intro hopen
  obtain ⟨slot, hslot, hactive, -⟩ := hopen
  rw [hstate] at hslot
  cases hpublishes : publishes canonical w.state with
  | true =>
    obtain ⟨old, -, -, heq⟩ := publishTerminalRecord_of_publishes hpublishes
    rw [heq] at hslot
    have hlookup : (w.state.stateTurns.insert canonical.turnRecordId
      (endedSlot canonical old)).lookup canonical.turnRecordId = some slot := hslot
    rw [lookup_insert_self] at hlookup
    cases hlookup
    rw [show (endedSlot canonical old).active = _ from hended] at hactive
    cases hactive
  | false =>
    rw [publishTerminalRecord_of_not_publishes hpublishes] at hslot
    unfold publishes at hpublishes
    rw [hslot, any_some, decide_eq_false_iff_not, Decidable.not_not] at hpublishes
    rw [show slot.active = canonical.active from congrArg TurnRecord.active hpublishes,
      hended] at hactive
    cases hactive

theorem not_open_of_write {canonical : TurnRecord} (hended : canonical.active = false)
    (hstate : w'.state = publishStateOnly turnId canonical w.state) : ¬ OpenTurn w' turnId := by
  intro hopen
  obtain ⟨slot, hslot, hactive, -⟩ := hopen
  rw [hstate] at hslot
  have hlookup : (w.state.stateTurns.adjust (endedSlot canonical) turnId).lookup turnId
    = some slot := hslot
  rw [lookup_adjust, if_pos rfl, map_eq_some_iff] at hlookup
  obtain ⟨old, -, rfl⟩ := hlookup
  rw [show (endedSlot canonical old).active = _ from hended] at hactive
  cases hactive

/-! ### A worker goes on while its turn is open -/

section Worker

variable (hI : Identity w) (hC : Claims w) (hnotClosed : w.state.stateClosed = false)
include hI hC hnotClosed

/-- **A worker gives up a turn only that is over or claimed.** -/
theorem not_spent_of_phaseStep {worker : Worker} {phase : WorkerPhase}
    (hworker : w.workers.lookup i = some worker) (hspent : worker.phase.spent = false)
    (hopen : OpenTurn w worker.turnId) (hopen' : OpenTurn w' worker.turnId)
    (hstep : PhaseStep w e w' i worker phase) : phase.spent = false := by
  obtain ⟨slot, hslot, hactive, hunclaimed⟩ := hopen
  have hadmitted := (hI.worker i worker hworker).2
  have hkey : slot.turnSlotRecord.key = worker.spec.key := by
    rw [(hI.slot _ slot hslot).1.2] at hadmitted
    exact some.inj hadmitted
  cases hstep with
  | moves hmoves =>
    cases hmoves with
    | lookUpNone _ hnone => exact absurd (congrArg Prod.fst hkey) (hnone slot hslot)
    | notStarted hphase hnone =>
      -- the turn has left the queue, and cannot wait for input before it is started
      have hrunning : slot.status = .turnRunning := by
        cases hstatus : slot.status with
        | turnRunning => rfl
        | turnQueued =>
          have hregistered := (hI.worker i worker hworker).1
          rw [(hI.queued _ slot hslot hstatus).1] at hregistered
          cases hregistered
        | turnWaitingForInput =>
          have hunstarted := hI.unstarted i worker hworker (by rw [hphase]; rfl)
          exact absurd (hI.waiting _ slot hslot hstatus) hunstarted
        | turnCompleted | turnFailed | turnCancelled =>
          change isActiveStatus slot.status = true at hactive
          rw [hstatus] at hactive
          cases hactive
      rw [hnone slot hslot hrunning hkey] at hunclaimed
      cases hunclaimed
    | readNone _ hread =>
      rw [finalizable_eq_none hread hslot hkey hactive] at hunclaimed
      cases hunclaimed
    | leave hphase =>
      rw [hphase] at hspent
      cases hspent
    | readStateOnlyNone _ hread =>
      rw [stateOnlyFinalizable_eq_none hread hslot] at hunclaimed
      cases hunclaimed
    | _ => rfl
  | commits hcommits =>
    generalize worker.phase = before at hcommits
    cases hcommits <;> rfl
  | @published canonical _ hphase hstate =>
    have hheld : worker.phase.canonical = some canonical := by
      rw [hphase]
      rfl
    have hrecord := hI.workerRecord i worker hworker canonical
      (WorkerPhase.record_of_canonical hheld)
    refine absurd (hrecord.1 ▸ hopen') ?_
    exact not_open_of_publish (hI.workerEnd i worker hworker canonical hheld) hstate
  | @written canonical _ hphase hstate =>
    have hended := hI.workerEnd i worker hworker canonical (by rw [hphase]; rfl)
    exact absurd hopen' (not_open_of_write hended hstate)
  | killed hcause =>
    rcases hcause with ⟨c, cancellation, record, doomed, hcancel, hphase⟩ |
      ⟨workers, tasks, replies, records, hcloser, -⟩
    · -- who stops a worker has claimed its turn
      have hturn := (hI.cancelTarget c cancellation hcancel i (by rw [hphase]; rfl)).2 worker hworker
      have hclaimed := hC.claimed c cancellation hcancel record (by rw [hphase]; rfl)
      rw [← hturn] at hclaimed
      exact absurd ⟨slot, hslot, hactive, hunclaimed⟩ hclaimed
    · have hclosed := hI.closer (by rw [hcloser]; exact Closer.noConfusion)
      rw [hnotClosed] at hclosed
      cases hclosed
  | _ => rfl

theorem attended_by_worker (h : Change config persistence w e w')
    (hregistered : w.state.stateWorkers.lookup turnId = some i) {worker : Worker}
    (hworker : w.workers.lookup i = some worker) (hspent : worker.phase.spent = false)
    (hopen : OpenTurn w turnId) (hopen' : OpenTurn w' turnId) (slot : TurnSlot) :
    Attended w' turnId slot := by
  have hturn : worker.turnId = turnId := by
    obtain ⟨other, hother, hturn⟩ := hI.registered turnId i hregistered
    rw [hworker] at hother
    cases hother
    exact hturn
  have hbound := hI.threads i worker hworker
  have hkept : ∃ worker', w'.workers.lookup i = some worker' := by
    cases registration_change h with
    | same _ hworkers =>
      obtain ⟨phase, hlookup⟩ := hworkers i worker hworker
      exact ⟨_, hlookup⟩
    | spawned _ hnew _ hworkers =>
      rw [hworkers, lookup_insert_of_ne (by omega)]
      exact ⟨worker, hworker⟩
    | @finished j finished hfinished hphase hworkers =>
      have hne : i ≠ j := by
        rintro rfl
        rw [hworker] at hfinished
        cases hfinished
        rw [hphase] at hspent
        cases hspent
      rw [hworkers, FinMap.lookup_delete_of_ne hne]
      exact ⟨worker, hworker⟩
  obtain ⟨worker', hworker'⟩ := hkept
  have hphase : worker'.turnId = turnId ∧ worker'.phase.spent = false := by
    cases worker_change h hworker' with
    | same hold =>
      rw [hworker] at hold
      cases hold
      exact ⟨hturn, hspent⟩
    | spawned _ hnew => omega
    | moved hold hstep =>
      rw [hworker] at hold
      cases hold
      rw [← hturn] at hopen hopen'
      exact ⟨hturn, not_spent_of_phaseStep hI hC hnotClosed hworker hspent hopen hopen' hstep⟩
  have hregistered' := registered_of_worker hI h hworker'
  rw [hphase.1] at hregistered'
  exact .worker hregistered' hworker' hphase.2

end Worker

/-! ### The dispatcher keeps its turn -/

/-- What becomes of the turn that the dispatcher holds. -/
theorem dispatcher_fate (h : Change config persistence w e w') {spec : TurnSpec}
    (hdispatcher : w.dispatcher = .reserved turnId spec) :
    w'.dispatcher = .reserved turnId spec ∨
      (∃ i, w'.state = registerWorker turnId i w.state ∧
        w'.workers = w.workers.insert i ⟨turnId, spec, .entering⟩) ∨
      acceptsWorker turnId spec w.state = false ∨ w.state.stateClosed = true := by
  cases h with
  | dispatch hchoosing =>
    rw [hdispatcher] at hchoosing
    cases hchoosing
  | dispatcherStops hclosed => exact .inr (.inr (.inr hclosed))
  | @spawn _ i _ _ hreserved =>
    rw [hdispatcher] at hreserved
    cases hreserved
    exact .inr (.inl ⟨i, rfl, rfl⟩)
  | spawnRejected hreserved hrejected =>
    rw [hdispatcher] at hreserved
    cases hreserved
    exact .inr (.inr (.inl hrejected))
  | input hinput =>
    refine .inl ?_
    cases hinput <;> exact hdispatcher
  | _ => exact .inl hdispatcher

theorem attended_by_dispatcher (hI : Identity w) (hkeeps : KeepsTurns w e)
    (h : Change config persistence w e w') (hnotClosed : w'.state.stateClosed = false)
    {spec : TurnSpec} (hdispatcher : w.dispatcher = .reserved turnId spec)
    (haccepted : acceptsWorker turnId spec w.state = true) (hopen : OpenTurn w turnId)
    {slot' : TurnSlot} (hslot' : w'.state.stateTurns.lookup turnId = some slot')
    (hactive' : slot'.active = true) : Attended w' turnId slot' := by
  obtain ⟨slot, hslot, hbefore, hrunning, hkey, hsession⟩ := acceptsWorker_eq_true.mp haccepted
  obtain ⟨-, hworker, hstart, -⟩ := hI.reserved turnId spec hdispatcher
  rcases dispatcher_fate h hdispatcher with hkept | ⟨i, hstate, hworkers⟩ | hrejected | hclosed
  · refine .reserved hkept (acceptsWorker_eq_true.mpr ⟨slot', hslot', hnotClosed, ?_⟩)
    have hsession' : spec.key ∈ w'.state.stateActiveSessions := by
      rcases session_kept h hsession with hkept | ⟨hcleared, -⟩
      · exact hkept
      · refine absurd ?_ ((hkeeps.2 hbefore).2 spec.key hcleared)
        obtain ⟨other, hother, hactive, hunclaimed⟩ := hopen
        unfold World.reservedSession
        rw [hdispatcher]
        dsimp only
        rw [hother, any_some, hactive, hunclaimed]
        rfl
    -- the slot is not touched before the turn has a worker
    cases slot_origin hI.keyed h hslot' with
    | kept hold hstep =>
      rw [hslot] at hold
      cases hold
      cases hstep with
      | same => exact ⟨hrunning, hkey, hsession'⟩
      | reserved hreservable =>
        have hqueued := hreservable.queued
        rw [hrunning] at hqueued
        cases hqueued
      | started hlookup hturn =>
        have hregistered := (hI.worker _ _ hlookup).1
        rw [hturn, hworker] at hregistered
        cases hregistered
      | ended hends =>
        rw [show (endedSlot _ slot).active = _ from (hends.spec hI).2] at hactive'
        cases hactive'
      | claimed | released => exact ⟨hrunning, hkey, hsession'⟩
      | waits _ hwaiter _ hturn => exact absurd (hturn ▸ (hI.waiter _ _ hwaiter).2) hstart
      | resumed =>
        unfold resumeWaitingTurn
        rw [if_neg (by rw [hrunning]; exact TurnStatus.noConfusion)]
        exact ⟨hrunning, hkey, hsession'⟩
    | admitted hevent =>
      have hrecord := (hI.slot turnId slot hslot).1.2
      rw [hkeeps.1 turnId hevent] at hrecord
      cases hrecord
  · have hregistered' : w'.state.stateWorkers.lookup turnId = some i := by
      rw [hstate]
      exact lookup_insert_self
    have hworker' : w'.workers.lookup i = some ⟨turnId, spec, .entering⟩ := by
      rw [hworkers]
      exact lookup_insert_self
    exact .worker hregistered' hworker' rfl
  · rw [haccepted] at hrejected
    cases hrejected
  · rw [hbefore] at hclosed
    cases hclosed

/-! ### A turn of the queue stays there, or is reserved -/

theorem attended_from_queue (hI : Identity w) (hfresh : FreshAdmission w e)
    (h : Change config persistence w e w') (hnotClosed : w'.state.stateClosed = false)
    {slot slot' : TurnSlot} (hslot : w.state.stateTurns.lookup turnId = some slot)
    (hqueued : slot.status = .turnQueued) (hunclaimed : slot.turnSlotCancelling = false)
    (hmem : turnId ∈ w.state.stateQueue)
    (hslot' : w'.state.stateTurns.lookup turnId = some slot') (hactive' : slot'.active = true)
    (hunclaimed' : slot'.turnSlotCancelling = false) : Attended w' turnId slot' := by
  obtain ⟨hworker, hstart⟩ := hI.queued turnId slot hslot hqueued
  have hqueue : slot'.status = .turnQueued → Attended w' turnId slot' := fun hqueued' =>
    .queued hqueued' (mem_queue_of_change h hmem hslot' hqueued' hunclaimed')
  cases slot_origin hI.keyed h hslot' with
  | kept hold hstep =>
    rw [hslot] at hold
    cases hold
    cases hstep with
    | same => exact hqueue hqueued
    | reserved hreservable _ hdispatcher hsession =>
      refine .reserved hdispatcher (acceptsWorker_eq_true.mpr ⟨_, hslot', hnotClosed, rfl, ?_⟩)
      rw [(hI.slot turnId slot hslot).2]
      exact ⟨rfl, hsession⟩
    | started hlookup hturn =>
      have hregistered := (hI.worker _ _ hlookup).1
      rw [hturn, hworker] at hregistered
      cases hregistered
    | ended hends =>
      rw [show (endedSlot _ slot).active = _ from (hends.spec hI).2] at hactive'
      cases hactive'
    | claimed => cases hunclaimed'
    | released _ _ _ hclaimed =>
      rw [hunclaimed] at hclaimed
      cases hclaimed
    | waits _ hwaiter _ hturn => exact absurd (hturn ▸ (hI.waiter _ _ hwaiter).2) hstart
    | resumed =>
      refine hqueue ?_
      unfold resumeWaitingTurn
      rw [if_neg (by rw [hqueued]; exact TurnStatus.noConfusion)]
      exact hqueued
  | admitted hevent =>
    have hrecord := (hI.slot turnId slot hslot).1.2
    rw [hfresh turnId hevent] at hrecord
    cases hrecord

/-! ### The invariant -/

/-- The invariant of runs that keep their turns. -/
structure ProgressInvariant (w : World) : Prop where
  identity : Identity w
  claims : Claims w
  attended : w.state.stateClosed = false → ∀ turnId slot,
    w.state.stateTurns.lookup turnId = some slot → slot.active = true →
    slot.turnSlotCancelling = false → Attended w turnId slot

theorem init_progressInvariant : ProgressInvariant .init where
  identity := init_identity
  claims := init_claims
  attended := by
    intro _ turnId slot hslot
    cases hslot

theorem attended_step (hP : ProgressInvariant w) (hkeeps : KeepsTurns w e)
    (h : Change config persistence w e w') (hnotClosed : w'.state.stateClosed = false)
    {slot' : TurnSlot} (hslot' : w'.state.stateTurns.lookup turnId = some slot')
    (hactive' : slot'.active = true) (hunclaimed' : slot'.turnSlotCancelling = false) :
    Attended w' turnId slot' := by
  obtain ⟨hI, hC, hattended⟩ := hP
  have hbefore : w.state.stateClosed = false := by
    cases hclosed : w.state.stateClosed with
    | false => rfl
    | true =>
      rw [stateClosed_mono h hclosed] at hnotClosed
      cases hnotClosed
  have hopen' : OpenTurn w' turnId := ⟨slot', hslot', hactive', hunclaimed'⟩
  rcases openTurn_of_change hI h hopen' with
    hopen | hevent | ⟨c, old, tasks, hevent, hreopens, hold, hafter⟩
  · obtain ⟨slot, hslot, hactive, hunclaimed⟩ := hopen
    cases hattended hbefore turnId slot hslot hactive hunclaimed with
    | queued hqueued hmem =>
      exact attended_from_queue hI hkeeps.1 h hnotClosed hslot hqueued hunclaimed hmem hslot'
        hactive' hunclaimed'
    | worker hregistered hworker hspent =>
      exact attended_by_worker hI hC hbefore h hregistered hworker hspent
        ⟨slot, hslot, hactive, hunclaimed⟩ hopen' slot'
    | reserved hdispatcher haccepted =>
      exact attended_by_dispatcher hI hkeeps h hnotClosed hdispatcher haccepted
        ⟨slot, hslot, hactive, hunclaimed⟩ hslot' hactive'
  · -- a turn that is admitted now goes to the queue
    cases slot_origin hI.keyed h hslot' with
    | kept hslot hstep =>
      have hrecord := (hI.slot turnId _ hslot).1.2
      rw [hkeeps.1 turnId hevent] at hrecord
      cases hrecord
    | admitted _ _ _ hmem hadmission => exact .queued hadmission.queued hmem
  · -- the claim that is given up leaves the turn to whom it was left before
    obtain ⟨slot, hreopened, hslot⟩ := hreopens.reopened hI
    rw [← hevent] at hreopened
    have hend := (hkeeps.2 hbefore).1 slot hreopened
    have hid := (hI.slot turnId slot hslot).1.1
    rw [hid] at hend
    subst hafter
    rcases willEnd_eq_true hend with ⟨i, worker, hregistered, hworker, hspent⟩ |
      ⟨spec, hdispatcher, haccepted⟩
    · exact .worker hregistered hworker hspent
    · obtain ⟨other, hother, -, hrunning, hkey, hsession⟩ := acceptsWorker_eq_true.mp haccepted
      rw [hold] at hother
      cases hother
      have hlookup : (w.state.stateTurns.adjust (unclaimedSlot old.turnSlotRecord)
        old.turnSlotRecord.turnRecordId).lookup turnId = some slot' := hslot'
      rw [(hI.slot turnId old hold).1.1, lookup_adjust, if_pos rfl, hold] at hlookup
      have hsame : slot'.turnSlotRecord = old.turnSlotRecord := by
        cases hlookup
        unfold unclaimedSlot
        split <;> rfl
      refine .reserved hdispatcher (acceptsWorker_eq_true.mpr ⟨slot', hslot', hnotClosed, ?_⟩)
      rw [hsame]
      exact ⟨(congrArg TurnRecord.turnRecordStatus hsame).trans hrunning, hkey, hsession⟩

theorem progressInvariant_step (hP : ProgressInvariant w) (hkeeps : KeepsTurns w e)
    (h : Change config persistence w e w') : ProgressInvariant w' where
  identity := identity_step hP.identity hkeeps.1 h
  claims := claims_step hP.identity hP.claims hkeeps.1 h
  attended hnotClosed _ _ hslot hactive hunclaimed :=
    attended_step hP hkeeps h hnotClosed hslot hactive hunclaimed

end Step

/-! ### The claim about runs -/

/-- **While a cancellation gives up only turns that will end, and the session of the turn that the
dispatcher holds stays active, every turn of an open supervisor is attended to.** -/
theorem no_turn_is_stranded (config : ValidConfig) (persistence : TurnPersistence) {w : World}
    (h : ReachableBy (World.step config.toSupervisorConfig persistence) KeepsTurns .init w)
    (hopen : w.state.stateClosed = false) {turnId : TurnId} {slot : TurnSlot}
    (hslot : w.state.stateTurns.lookup turnId = some slot) (hactive : slot.active = true)
    (hunclaimed : slot.turnSlotCancelling = false) : Attended w turnId slot := by
  have hP := h.invariant init_progressInvariant fun _ _ _ hP hkeeps hstep =>
    progressInvariant_step hP hkeeps (step_change hstep)
  exact hP.attended hopen turnId slot hslot hactive hunclaimed

/-- A turn is being run when its cancellation is given up. -/
theorem no_turn_is_stranded_in_exampleStart :
    ∃ (w : World) (slot : TurnSlot), ReachableBy
        (World.step exampleTurnConfig.toSupervisorConfig inMemoryTurnPersistence) KeepsTurns .init
        w ∧
      w.state.stateTurns.lookup 1 = some slot ∧ slot.active = true ∧ Attended w 1 slot := by
  have hrun : (Machine.run (guarded KeepsTurns
      (World.step exampleTurnConfig.toSupervisorConfig inMemoryTurnPersistence)) .init
      (exampleStart ++ [.cancel 0 exampleTurnBoundary 1, .claim 0, .endHook 0, .interruptCancel 0,
        .releaseClaim 0])).any (fun w => !w.state.stateClosed &&
          (w.state.stateTurns.lookup 1).any fun slot => slot.active && !slot.turnSlotCancelling)
        = true := by
    decide +kernel
  obtain ⟨w, hw, htest⟩ := exists_reachableBy_of_run hrun
  rw [Bool.and_eq_true, Bool.not_eq_true', Option.any_eq_true] at htest
  obtain ⟨hopen, slot, hslot, hslots⟩ := htest
  rw [Bool.and_eq_true, Bool.not_eq_true'] at hslots
  exact ⟨w, slot, hw, hslot, hslots.1, no_turn_is_stranded exampleTurnConfig
    inMemoryTurnPersistence hw hopen hslot hslots.1 hslots.2⟩

/-- The worker of a turn is stopped by a cancellation that is interrupted then. -/
def strandedRun : List SupervisorEvent :=
  exampleStart ++ [.cancel 0 exampleTurnBoundary 1, .claim 0, .endHook 0, .killWorker 0, .finish 0,
    .joinWorker 0, .interruptCancel 0, .releaseClaim 0]

/-- **A turn that was given up is running, and has no worker.** -/
theorem given_up_turn_is_stranded :
    ∃ (w : World) (slot : TurnSlot), Reachable
        (World.step exampleTurnConfig.toSupervisorConfig inMemoryTurnPersistence) .init w ∧
      w.state.stateClosed = false ∧ w.state.stateTurns.lookup 1 = some slot ∧
      slot.active = true ∧ slot.turnSlotCancelling = false ∧ ¬ Attended w 1 slot := by
  have hrun : (Machine.run
      (World.step exampleTurnConfig.toSupervisorConfig inMemoryTurnPersistence) .init
      strandedRun).any (fun w => !w.state.stateClosed && w.state.stateQueue == [] &&
        (w.state.stateWorkers.lookup 1).isNone && decide (w.dispatcher = .choosing) &&
        (w.state.stateTurns.lookup 1).any fun slot => slot.active && !slot.turnSlotCancelling)
      = true := by
    decide +kernel
  obtain ⟨w, hw, htest⟩ := exists_reachable_of_run hrun
  simp only [Bool.and_eq_true, Bool.not_eq_true', beq_iff_eq, decide_eq_true_eq,
    Option.any_eq_true, isNone_iff_eq_none] at htest
  obtain ⟨⟨⟨⟨hopen, hqueue⟩, hworker⟩, hdispatcher⟩, slot, hslot, hactive, hunclaimed⟩ := htest
  refine ⟨w, slot, hw, hopen, hslot, hactive, hunclaimed, fun hattended => ?_⟩
  cases hattended with
  | queued _ hmem =>
    rw [hqueue] at hmem
    cases hmem
  | worker hregistered =>
    rw [hworker] at hregistered
    cases hregistered
  | reserved hreserved =>
    rw [hdispatcher] at hreserved
    cases hreserved

end Server
end HaskellAgent
