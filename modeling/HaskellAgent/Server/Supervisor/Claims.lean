import HaskellAgent.Server.Supervisor.Identity

/-!
# Claims of turns, and the queue

A call of `cancelTurn` that has claimed a turn keeps it to itself until the turn is over or the claim
is released, and so a turn in the queue is claimed by nobody.  A supervisor that has closed has only
the workers that it is stopping.
-/

open List Option FinMap

namespace HaskellAgent

namespace Server

/-- All workers and the dispatcher have stopped. -/
def Closer.stoppedWorkers : Closer → Bool
  | .persisting _ _ | .publishing _ => true
  | _ => false

theorem Closer.stoppedWorkers_of_mem {closer : Closer} {canonical : TurnRecord}
    (h : canonical ∈ closer.canonicals) : closer.stoppedWorkers = true := by
  cases closer with
  | persisting | publishing => rfl
  | _ => cases h

/-- **Who has claimed a turn, has it for himself.** -/
structure Claims (w : World) : Prop where
  claimed : ∀ c cancellation, w.cancellations.lookup c = some cancellation → ∀ record,
    cancellation.phase.record = some record → ¬ OpenTurn w cancellation.turnId
  exclusive : ∀ c d cancellation other, w.cancellations.lookup c = some cancellation →
    w.cancellations.lookup d = some other → ∀ record record',
    cancellation.phase.record = some record → other.phase.record = some record' →
    cancellation.turnId = other.turnId → ActiveTurn w cancellation.turnId → c = d
  queue : ∀ turnId ∈ w.state.stateQueue, ∃ slot, w.state.stateTurns.lookup turnId = some slot ∧
    slot.status = .turnQueued ∧ slot.turnSlotCancelling = false
  queueNodup : w.state.stateQueue.Nodup
  closedQueue : w.state.stateClosed = true → w.state.stateQueue = []
  /-- All workers are to be stopped. -/
  closing : ∀ workers tasks replies records, w.closer = .stopping workers tasks replies records →
    ∀ i worker, w.workers.lookup i = some worker → i ∈ workers
  /-- All workers have been stopped. -/
  stopped : w.closer.stoppedWorkers = true → ∀ i, w.workers.lookup i = none

/-- The slot of the active turn whose claim the step undoes. -/
def World.reopened (w : World) : SupervisorEvent → Option TurnSlot
  | .releaseClaim c =>
      match w.cancellations.lookup c with
      | none => none
      | some cancellation =>
          match cancellation.phase with
          | .releasing record =>
              (w.state.stateTurns.lookup record.turnRecordId).filter fun slot =>
                slot.turnSlotCancelling && decide (slot.turnSlotRecord = record) && slot.active
          | _ => none
  | _ => none

theorem init_claims : Claims .init := by
  constructor <;> intros <;> first
    | exact nodup_nil
    | contradiction

theorem Reopens.reopened {w : World} (hI : Identity w) {turnId : TurnId} {c : ℕ}
    (h : Reopens w turnId c) : ∃ slot, w.reopened (.releaseClaim c) = some slot ∧
      w.state.stateTurns.lookup turnId = some slot := by
  obtain ⟨cancellation, slot, hcancel, hslot, hphase, hclaimed, hactive⟩ := h
  refine ⟨slot, ?_, hslot⟩
  have hid := (hI.slot turnId slot hslot).1.1
  unfold World.reopened
  dsimp only
  rw [hcancel]
  dsimp only
  rw [hphase]
  dsimp only
  rw [hid, hslot, filter_some, if_pos]
  rw [hclaimed, decide_eq_true rfl, Bool.true_and, Bool.true_and]
  exact hactive

section Step

variable {config : SupervisorConfig} {persistence : TurnPersistence} {w w' : World}
  {e : SupervisorEvent} {turnId : TurnId}

theorem OpenTurn.active (hopen : OpenTurn w turnId) : ActiveTurn w turnId := by
  obtain ⟨slot, hslot, hactive, -⟩ := hopen
  exact ⟨slot, hslot, hactive⟩

/-! ### The queue -/

/-- What a step makes of the queue. -/
inductive QueueChange (config : SupervisorConfig) (w : World) (e : SupervisorEvent) (w' : World) : Prop
  | same (hqueue : w'.state.stateQueue = w.state.stateQueue)
  | admitted {turnId : TurnId} {slot : TurnSlot} (hevent : e.admittedTurn = some turnId)
      (hopen : w.state.stateClosed = false)
      (hroom : w.state.stateQueue.length < config.supervisorMaxQueuedTurns)
      (hqueue : w'.state.stateQueue = w.state.stateQueue ++ [turnId])
      (hslot : w'.state.stateTurns.lookup turnId = some slot) (hqueued : slot.status = .turnQueued)
      (hunclaimed : slot.turnSlotCancelling = false)
  | reserved {turnId : TurnId} {slot : TurnSlot}
      (hqueue : w'.state.stateQueue = w.state.stateQueue.filter (· ≠ turnId))
      (hslot : w'.state.stateTurns.lookup turnId = some (reservedSlot slot))
  | claimed {turnId : TurnId} {slot : TurnSlot}
      (hqueue : w'.state.stateQueue = w.state.stateQueue.filter (· ≠ turnId))
      (hslot : w'.state.stateTurns.lookup turnId = some { slot with turnSlotCancelling := true })
  | closed (hqueue : w'.state.stateQueue = []) (hclosed : w'.state.stateClosed = true)
      (hslots : w'.state.stateTurns = w.state.stateTurns.map closedSlot)

theorem queue_change (h : Change config persistence w e w') : QueueChange config w e w' := by
  cases h with
  | admits hevent _ hadmitted =>
    obtain ⟨hadmission, rfl⟩ := enqueueTurnRecord_eq_ok hadmitted
    rw [← hadmission.turnId] at hevent
    exact .admitted hevent hadmission.opened hadmission.room rfl lookup_insert_self
      hadmission.queued rfl
  | dispatch _ hreserve =>
    obtain ⟨slot, tenantId, -, -, rfl⟩ := reserveRunnable_eq_reserved hreserve
    exact .reserved rfl lookup_insert_self
  | markStarted _ _ hmark =>
    obtain ⟨slot, -, -, -, -, rfl⟩ := markTurnStarted_eq_some hmark
    exact .same rfl
  | publishFinal => exact .same (publishTerminalRecord_frame _ _).1
  | claim _ _ hclaim =>
    obtain ⟨slot, -, -, -, -, -, -, rfl⟩ := claimCancellation_eq_claimed hclaim
    exact .claimed rfl lookup_insert_self
  | publishCancel => exact .same (publishTerminalRecord_frame _ _).1
  | input hinput => exact .same hinput.frame.1
  | close => exact .closed rfl rfl rfl
  | closePublish => exact .same (publishTerminalRecord_frame _ _).1
  | _ => exact .same rfl

/-- A turn of the queue that waits on stays there. -/
theorem mem_queue_of_change (h : Change config persistence w e w') {slot : TurnSlot}
    (hmem : turnId ∈ w.state.stateQueue) (hslot : w'.state.stateTurns.lookup turnId = some slot)
    (hqueued : slot.status = .turnQueued) (hunclaimed : slot.turnSlotCancelling = false) :
    turnId ∈ w'.state.stateQueue := by
  cases queue_change h with
  | same hqueue =>
    rw [hqueue]
    exact hmem
  | admitted _ _ _ hqueue =>
    rw [hqueue]
    exact mem_append_left _ hmem
  | reserved hqueue hreserved =>
    rw [hqueue]
    refine mem_filter.mpr ⟨hmem, decide_eq_true ?_⟩
    rintro rfl
    rw [hslot] at hreserved
    cases hreserved
    cases hqueued
  | claimed hqueue hclaimed =>
    rw [hqueue]
    refine mem_filter.mpr ⟨hmem, decide_eq_true ?_⟩
    rintro rfl
    rw [hslot] at hclaimed
    cases hclaimed
    cases hunclaimed
  | closed _ _ hslots =>
    rw [hslots, lookup_map, map_eq_some_iff] at hslot
    obtain ⟨old, -, rfl⟩ := hslot
    unfold closedSlot at hunclaimed hqueued
    split at hunclaimed
    · cases hunclaimed
    · next hended =>
      rw [if_neg hended] at hqueued
      have hactive : old.active = true := by
        show isActiveStatus old.status = true
        rw [hqueued]
        rfl
      exact absurd hactive hended

/-! ### The claims stay exclusive -/

variable {record : TurnRecord}

/-- A call that has claimed a turn has done so before, or does it now. -/
theorem holder_of_change (h : Change config persistence w e w') {c : ℕ}
    {cancellation : Cancellation} (hcancel : w'.cancellations.lookup c = some cancellation)
    (hphase : cancellation.phase.record = some record) :
    (∃ old, w.cancellations.lookup c = some old ∧ old.phase.record.isSome = true ∧
      old.turnId = cancellation.turnId) ∨
      (e = .claim c ∧ OpenTurn w cancellation.turnId ∧ ¬ OpenTurn w' cancellation.turnId) := by
  cases cancellation_change h hcancel with
  | same hold => exact .inl ⟨cancellation, hold, by rw [hphase]; rfl, rfl⟩
  | begins hclaiming =>
    rw [hclaiming] at hphase
    cases hphase
  | @claims old _ _ _ _ hevent _ hclaim hstate =>
    obtain ⟨slot, hslot, hunclaimed, hactive, -, -, -, hstate'⟩ :=
      claimCancellation_eq_claimed hclaim
    refine .inr ⟨hevent, ⟨slot, hslot, hactive, hunclaimed⟩, ?_⟩
    rintro ⟨slot', hslot', -, hopen⟩
    rw [hstate, hstate'] at hslot'
    have hlookup : (w.state.stateTurns.insert old.turnId
      { slot with turnSlotCancelling := true }).lookup old.turnId = some slot' := hslot'
    rw [lookup_insert_self] at hlookup
    cases hlookup
    cases hopen
  | @moved old phase hold hmoves =>
    refine .inl ⟨old, hold, ?_, rfl⟩
    generalize old.phase = before at hmoves
    cases hmoves <;> rfl
  | commits hold hpersisting =>
    refine .inl ⟨_, hold, ?_, rfl⟩
    rw [hpersisting]
    rfl

variable (hI : Identity w) (hC : Claims w) (hfresh : FreshAdmission w e)
  (h : Change config persistence w e w')
include hI hC hfresh h

/-- A call that holds its claim on, holds a turn that is not admitted now. -/
theorem not_open_of_holder {c : ℕ} {cancellation old : Cancellation}
    (hcancel : w'.cancellations.lookup c = some cancellation)
    (hold : w.cancellations.lookup c = some old) (hphase : old.phase.record = some record)
    (hturn : old.turnId = cancellation.turnId) : ¬ OpenTurn w' cancellation.turnId := by
  intro hopen
  rw [← hturn] at hopen
  rcases openTurn_of_change hI h hopen with
    hbefore | hadmitted | ⟨d, kept, tasks, -, hreopens, -, hafter⟩
  · exact hC.claimed c old hold record hphase hbefore
  · have hrecord := (hI.cancelRecord c old hold record hphase).2
    rw [hfresh _ hadmitted] at hrecord
    cases hrecord
  · obtain ⟨other, slot, hother, hslot, hreleasing, -, hactive⟩ := hreopens
    -- two calls cannot both have claimed the turn
    have hheld : other.phase.record = some slot.turnSlotRecord := by
      rw [hreleasing]
      rfl
    have hof := (hI.cancelRecord d other hother _ hheld).1
    have hid := (hI.slot _ slot hslot).1.1
    have hsame : old.turnId = other.turnId := by
      rw [← hid, hof]
    have heq := hC.exclusive c d old other hold hother _ _ hphase hheld hsame
      ⟨slot, hslot, hactive⟩
    subst heq
    rw [hafter] at hcancel
    have hgone : (w.cancellations.delete c).lookup c = some cancellation := hcancel
    rw [FinMap.lookup_delete_self] at hgone
    cases hgone

theorem claimed_step {c : ℕ} {cancellation : Cancellation}
    (hcancel : w'.cancellations.lookup c = some cancellation)
    (hphase : cancellation.phase.record = some record) : ¬ OpenTurn w' cancellation.turnId := by
  rcases holder_of_change h hcancel hphase with ⟨old, hold, hheld, hturn⟩ | ⟨-, -, hclosed⟩
  · obtain ⟨record', hrecord'⟩ := isSome_iff_exists.mp hheld
    exact not_open_of_holder hI hC hfresh h hcancel hold hrecord' hturn
  · exact hclosed

theorem exclusive_step {c d : ℕ} {cancellation other : Cancellation}
    (hcancel : w'.cancellations.lookup c = some cancellation)
    (hother : w'.cancellations.lookup d = some other) {record record' : TurnRecord}
    (hphase : cancellation.phase.record = some record)
    (hphase' : other.phase.record = some record') (hturn : cancellation.turnId = other.turnId)
    (hactive : ActiveTurn w' cancellation.turnId) : c = d := by
  have hbefore : ActiveTurn w cancellation.turnId := by
    rcases activeTurn_of_change hI h hactive with hbefore | hadmitted
    · exact hbefore
    · have hrecord := (cancelRecord_identity hI hfresh h hcancel hphase).1
      rcases holder_of_change h hcancel hphase with ⟨old, hold, hheld, hsame⟩ | ⟨-, hopen, -⟩
      · obtain ⟨held, hheld⟩ := isSome_iff_exists.mp hheld
        have hadmitted' := (hI.cancelRecord c old hold held hheld).2
        rw [hsame, hfresh _ hadmitted] at hadmitted'
        cases hadmitted'
      · exact hopen.active
  rcases holder_of_change h hcancel hphase with ⟨old, hold, hheld, hsame⟩ | ⟨hevent, hopen, -⟩
  · obtain ⟨held, hheld⟩ := isSome_iff_exists.mp hheld
    rcases holder_of_change h hother hphase' with ⟨old', hold', hheld', hsame'⟩ | ⟨-, hopen, -⟩
    · obtain ⟨held', hheld'⟩ := isSome_iff_exists.mp hheld'
      refine hC.exclusive c d old old' hold hold' held held' hheld hheld' ?_ (hsame ▸ hbefore)
      rw [hsame, hsame', hturn]
    · -- a turn that is claimed now has been open
      rw [← hturn, ← hsame] at hopen
      exact absurd hopen (hC.claimed c old hold held hheld)
  · rcases holder_of_change h hother hphase' with ⟨old', hold', hheld', hsame'⟩ | ⟨hevent', -⟩
    · obtain ⟨held', hheld'⟩ := isSome_iff_exists.mp hheld'
      rw [hturn, ← hsame'] at hopen
      exact absurd hopen (hC.claimed d old' hold' held' hheld')
    · rw [hevent] at hevent'
      cases hevent'
      rfl

/-! ### The queue holds turns that wait -/

theorem queue_step (hmem : turnId ∈ w'.state.stateQueue) :
    ∃ slot, w'.state.stateTurns.lookup turnId = some slot ∧ slot.status = .turnQueued ∧
      slot.turnSlotCancelling = false := by
  have hbefore : turnId ∈ w.state.stateQueue ∨ ∃ slot,
      w'.state.stateTurns.lookup turnId = some slot ∧ slot.status = .turnQueued ∧
        slot.turnSlotCancelling = false := by
    cases queue_change h with
    | same hqueue => exact .inl (hqueue ▸ hmem)
    | admitted _ _ _ hqueue hslot hqueued hunclaimed =>
      rw [hqueue, mem_append, mem_singleton] at hmem
      rcases hmem with hmem | rfl
      · exact .inl hmem
      · exact .inr ⟨_, hslot, hqueued, hunclaimed⟩
    | reserved hqueue | claimed hqueue =>
      rw [hqueue] at hmem
      exact .inl (mem_filter.mp hmem).1
    | closed hqueue =>
      rw [hqueue] at hmem
      cases hmem
  rcases hbefore with hold | hnow
  · obtain ⟨slot, hslot, hqueued, hunclaimed⟩ := hC.queue turnId hold
    obtain ⟨hworker, hstart⟩ := hI.queued turnId slot hslot hqueued
    have hactive : slot.active = true := by
      show isActiveStatus slot.status = true
      rw [hqueued]
      rfl
    have hopen : OpenTurn w turnId := ⟨slot, hslot, hactive, hunclaimed⟩
    cases slot_fate hI.keyed h hslot with
    | kept hslot' hstep =>
      cases hstep with
      | same => exact ⟨slot, hslot', hqueued, hunclaimed⟩
      | reserved _ hgone | claimed _ hgone => exact absurd hmem hgone
      | started hlookup hturn =>
        have hregistered := (hI.worker _ _ hlookup).1
        rw [hturn, hworker] at hregistered
        cases hregistered
      | ended hends =>
        -- nobody ends a turn that waits in the queue
        exfalso
        rcases hends.cause hI with ⟨i, worker, hlookup, hturn, -⟩ |
          ⟨c, cancellation, hlookup, hturn, hcanonical⟩ | ⟨-, hclosed⟩
        · have hregistered := (hI.worker i worker hlookup).1
          rw [hturn, hworker] at hregistered
          cases hregistered
        · refine hC.claimed c cancellation hlookup _ (CancelPhase.record_of_canonical hcanonical) ?_
          rw [hturn]
          exact hopen
        · rw [hC.closedQueue hclosed] at hold
          cases hold
      | released _ _ _ hclaimed _ =>
        rw [hunclaimed] at hclaimed
        cases hclaimed
      | waits _ hwaiter _ hturn =>
        exact absurd (hturn ▸ (hI.waiter _ _ hwaiter).2) hstart
      | resumed =>
        refine ⟨_, hslot', ?_⟩
        unfold resumeWaitingTurn
        rw [if_neg (by rw [hqueued]; exact TurnStatus.noConfusion)]
        exact ⟨hqueued, hunclaimed⟩
    | replaced hevent =>
      have hrecord := (hI.slot turnId slot hslot).1.2
      rw [hfresh turnId hevent] at hrecord
      cases hrecord
    | pruned _ hended =>
      rw [hactive] at hended
      cases hended
  · exact hnow

theorem queueNodup_step : w'.state.stateQueue.Nodup := by
  cases queue_change h with
  | same hqueue =>
    rw [hqueue]
    exact hC.queueNodup
  | @admitted turnId _ hevent _ _ hqueue =>
    rw [hqueue]
    refine nodup_append.mpr ⟨hC.queueNodup, nodup_singleton _, fun a ha b hb => ?_⟩
    rw [mem_singleton] at hb
    rintro rfl
    obtain ⟨slot, hslot, -⟩ := hC.queue a ha
    have hrecord := (hI.slot a slot hslot).1.2
    rw [hb, hfresh turnId hevent] at hrecord
    cases hrecord
  | reserved hqueue | claimed hqueue =>
    rw [hqueue]
    exact hC.queueNodup.filter _
  | closed hqueue =>
    rw [hqueue]
    exact nodup_nil

omit hI hfresh in
theorem closedQueue_step (hclosed : w'.state.stateClosed = true) : w'.state.stateQueue = [] := by
  rcases stateClosed_change h with hsame | ⟨-, hstate⟩
  · rw [hsame] at hclosed
    have hempty := hC.closedQueue hclosed
    cases queue_change h with
    | same hqueue => rw [hqueue, hempty]
    | admitted _ hopen =>
      rw [hclosed] at hopen
      cases hopen
    | reserved hqueue | claimed hqueue =>
      rw [hqueue, hempty]
      rfl
    | closed hqueue => exact hqueue
  · rw [hstate]
    rfl

/-! ### Shutdown -/

omit hI hC hfresh in
/-- No worker is spawned once the supervisor has closed. -/
theorem worker_of_closed (hclosed : w.state.stateClosed = true) {i : ℕ} {worker : Worker}
    (hworker : w'.workers.lookup i = some worker) : ∃ old, w.workers.lookup i = some old := by
  cases worker_change h hworker with
  | same hold => exact ⟨worker, hold⟩
  | spawned _ _ haccepted =>
    obtain ⟨slot, -, hopen, -⟩ := acceptsWorker_eq_true.mp haccepted
    rw [hclosed] at hopen
    cases hopen
  | moved hold => exact ⟨_, hold⟩

omit hfresh in
theorem closing_step {workers tasks : List ℕ} {replies : List RequestId}
    {records : List TurnRecord} (hcloser : w'.closer = .stopping workers tasks replies records)
    {i : ℕ} {worker : Worker} (hworker : w'.workers.lookup i = some worker) : i ∈ workers := by
  have hkept : ∀ replies', w.closer = .stopping workers tasks replies' records → i ∈ workers := by
    intro replies' hbefore
    have hclosed := hI.closer (by rw [hbefore]; exact Closer.noConfusion)
    obtain ⟨old, hold⟩ := worker_of_closed h hclosed hworker
    exact hC.closing workers tasks replies' records hbefore i old hold
  cases h with
  | close =>
    cases hcloser
    exact mem_elems.mpr ⟨worker.turnId, (hI.worker i worker hworker).1⟩
  | closerMoves hmoves =>
    cases hmoves with
    | reply hbefore =>
      cases hcloser
      exact hkept _ hbefore
    | _ => cases hcloser
  | closePersist | closePublish => cases hcloser
  | input hinput => cases hinput <;> exact hkept _ hcloser
  | _ => exact hkept _ hcloser

omit hfresh in
theorem stopped_step (hcloser : w'.closer.stoppedWorkers = true) (i : ℕ) :
    w'.workers.lookup i = none := by
  cases hlookup : w'.workers.lookup i with
  | none => rfl
  | some worker =>
    exfalso
    have hkept : w.closer.stoppedWorkers = true → False := by
      intro hbefore
      have hclosed : w.state.stateClosed = true := by
        refine hI.closer fun habsent => ?_
        rw [habsent] at hbefore
        cases hbefore
      obtain ⟨old, hold⟩ := worker_of_closed h hclosed hlookup
      rw [hC.stopped hbefore i] at hold
      cases hold
    cases h with
    | close => cases hcloser
    | closerMoves hmoves =>
      cases hmoves with
      | reply => cases hcloser
      | stopped hbefore hworkers =>
        have hmem := hC.closing _ _ _ _ hbefore i worker hlookup
        have hgone := hworkers i hmem
        rw [show w.workers.lookup i = some worker from hlookup] at hgone
        cases hgone
      | persisted hbefore =>
        refine hkept ?_
        rw [hbefore]
        rfl
      | ends => cases hcloser
    | closePersist hbefore | closePublish hbefore =>
      refine hkept ?_
      rw [hbefore]
      rfl
    | input hinput => cases hinput <;> exact hkept hcloser
    | _ => exact hkept hcloser

/-- **The claims stay exclusive.** -/
theorem claims_step : Claims w' where
  claimed _ _ hcancel _ hphase := claimed_step hI hC hfresh h hcancel hphase
  exclusive _ _ _ _ hcancel hother _ _ hphase hphase' hturn hactive :=
    exclusive_step hI hC hfresh h hcancel hother hphase hphase' hturn hactive
  queue _ := queue_step hI hC hfresh h
  queueNodup := queueNodup_step hI hC hfresh h
  closedQueue := closedQueue_step hC h
  closing _ _ _ _ hcloser _ _ hworker := closing_step hI hC h hcloser hworker
  stopped := stopped_step hI hC h

end Step

end Server

end HaskellAgent
