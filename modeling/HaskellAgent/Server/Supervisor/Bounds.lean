import HaskellAgent.Lib.FinMapTotals
import HaskellAgent.Server.Supervisor.Claims

/-!
# Admission and concurrency stay within bounds

The limits on the queue are checked where a turn is admitted, and those on the workers where a turn
is reserved.  Both count what is kept of the turns at that time.

Two steps break what they count on.  A cancellation that gives up a turn of the queue leaves it
outside the queue; and an admission may drop the slot of a turn that is over while its worker still
goes on, so that this worker is counted for nobody.
-/

open List Option FinMap Machine

namespace HaskellAgent
namespace Server

/-- The turn was admitted for a client of the tenant. -/
def World.runsForTenant (w : World) (tenantId : Text) (turnId : TurnId) : Bool :=
  (w.admitted.lookup turnId).any fun key => decide (key.1.accessTenantId = tenantId)

/-- **The queue holds the turns that wait, and nothing exceeds its limit.** -/
structure Bounds (config : SupervisorConfig) (w : World) : Prop where
  queueNodup : w.state.stateQueue.Nodup
  mem_queue : ∀ turnId, turnId ∈ w.state.stateQueue ↔
    ∃ slot, w.state.stateTurns.lookup turnId = some slot ∧ slot.status = .turnQueued ∧
      slot.turnSlotCancelling = false
  queueLength : w.state.stateQueue.length ≤ config.supervisorMaxQueuedTurns
  tenantQueued : ∀ tenantId,
    queuedForTenant tenantId w.state.stateTurns ≤ config.supervisorMaxQueuedTurnsPerTenant
  bytes : queuedAttachmentBytes w.state.stateTurns ≤ maximumQueuedAttachmentBytes
  tenantBytes : ∀ tenantId, queuedAttachmentBytesForTenant tenantId w.state.stateTurns ≤
    maximumQueuedAttachmentBytesPerTenant
  workers : w.state.stateWorkers.keys.length ≤ config.supervisorMaxConcurrentTurns
  tenantWorkers : ∀ tenantId, (w.state.stateWorkers.keys.filter (w.runsForTenant tenantId)).length
    ≤ config.supervisorMaxConcurrentTurnsPerTenant

/-- No turn is admitted again, no turn of the queue is given up by its cancellation, and no slot of a
turn that has a worker is dropped. -/
def KeepsCounts (w : World) (e : SupervisorEvent) : Prop :=
  FreshAdmission w e ∧ (∀ slot ∈ w.reopened e, slot.status ≠ .turnQueued) ∧
    ∀ turnId ∈ e.admittedTurn, ∀ other ∈ w.state.stateWorkers.keys,
      ((pruneTerminalTurns w.state.stateTurns).lookup other).isSome

instance (w : World) (e : SupervisorEvent) : Decidable (KeepsCounts w e) := by
  unfold KeepsCounts
  infer_instance

/-! ### Totals over the slots -/

/-- What a slot of the queue adds to a total. -/
def queuedCost (p : TurnSlot → Bool) (cost : TurnSlot → ℕ) (slot : TurnSlot) : ℕ :=
  if queuedSlot slot && p slot then cost slot else 0

def slotBytes (slot : TurnSlot) : ℕ := turnAttachmentBytes slot.turnSlotSpec

theorem queuedAttachmentBytes_eq (turns : FinMap TurnId TurnSlot) :
    queuedAttachmentBytes turns = turns.total (queuedCost (fun _ => true) slotBytes) := by
  unfold queuedAttachmentBytes FinMap.total
  rw [sum_filter_map]
  unfold queuedCost
  simp only [Bool.and_true]
  rfl

theorem queuedAttachmentBytesForTenant_eq (tenantId : Text) (turns : FinMap TurnId TurnSlot) :
    queuedAttachmentBytesForTenant tenantId turns
      = turns.total (queuedCost (ofTenant tenantId) slotBytes) := by
  unfold queuedAttachmentBytesForTenant FinMap.total
  rw [sum_filter_map]
  rfl

theorem queuedForTenant_eq (tenantId : Text) (turns : FinMap TurnId TurnSlot) :
    queuedForTenant tenantId turns = turns.total (queuedCost (ofTenant tenantId) fun _ => 1) := by
  unfold queuedForTenant FinMap.total queuedCost
  rw [← sum_filter_map (f := fun _ => 1), map_const', sum_replicate]
  exact (Nat.mul_one _).symm

section Step

variable {config : SupervisorConfig} {persistence : TurnPersistence} {w w' : World}
  {e : SupervisorEvent} {turnId : TurnId}

/-- A slot that waits in the queue on has not been changed. -/
theorem SlotStep.queued_cost (hI : Identity w) {slot slot' : TurnSlot}
    (h : SlotStep config w e w' turnId slot slot') {p : TurnSlot → Bool} {cost : TurnSlot → ℕ}
    (hp : ∀ claimed, p { slot with turnSlotCancelling := claimed } = p slot)
    (hcost : ∀ claimed, cost { slot with turnSlotCancelling := claimed } = cost slot) :
    queuedCost p cost slot' ≤ queuedCost p cost slot := by
  by_cases hqueued : slot'.status = .turnQueued
  · have hbefore := h.queued hI hqueued
    cases h with
    | same => exact Nat.le_refl _
    | reserved => cases hqueued
    | started _ _ _ hrunning =>
      rw [hbefore] at hrunning
      cases hrunning
    | ended hends =>
      have hend := (hends.spec hI).2
      change isActiveStatus (endedSlot _ slot).status = false at hend
      rw [hqueued] at hend
      cases hend
    | claimed | released =>
      unfold queuedCost
      rw [hp, hcost]
      exact Nat.le_refl _
    | waits => cases hqueued
    | resumed =>
      unfold resumeWaitingTurn
      rw [if_neg (by rw [hbefore]; exact TurnStatus.noConfusion)]
  · have hzero : queuedCost p cost slot' = 0 := by
      unfold queuedCost queuedSlot
      rw [decide_eq_false hqueued, Bool.false_and, if_neg Bool.false_ne_true]
    rw [hzero]
    exact Nat.zero_le _

/-- A total of the queue grows where a turn is admitted only. -/
theorem total_queuedCost_le (hI : Identity w) (h : Change config persistence w e w')
    {p : TurnSlot → Bool} {cost : TurnSlot → ℕ} {limit : ℕ}
    (hp : ∀ slot claimed, p { slot with turnSlotCancelling := claimed } = p slot)
    (hcost : ∀ slot claimed, cost { slot with turnSlotCancelling := claimed } = cost slot)
    (hlimit : w.state.stateTurns.total (queuedCost p cost) ≤ limit)
    (hadmits : ∀ reservationHeld spec record admitted,
      Admission config reservationHeld spec record admitted w.state →
      w.state.stateTurns.total (queuedCost p cost) +
        queuedCost p cost (admittedSlot spec admitted) ≤ limit) :
    w'.state.stateTurns.total (queuedCost p cost) ≤ limit := by
  cases turns_change h with
  | @admits _ spec _ admitted _ hadmission _ _ hturns =>
    have hpruned : (pruneTerminalTurns w.state.stateTurns).total (queuedCost p cost)
        ≤ w.state.stateTurns.total (queuedCost p cost) := by
      refine total_le fun turnId slot hslot => ?_
      exact ⟨slot, mem_of_lookup_pruneTerminalTurns hI.keyed hslot, Nat.le_refl _⟩
    calc w'.state.stateTurns.total (queuedCost p cost)
        ≤ (pruneTerminalTurns w.state.stateTurns).total (queuedCost p cost) +
            queuedCost p cost (admittedSlot spec admitted) := by
          rw [hturns]
          exact total_insert_le
      _ ≤ w.state.stateTurns.total (queuedCost p cost) +
            queuedCost p cost (admittedSlot spec admitted) := Nat.add_le_add_right hpruned _
      _ ≤ limit := hadmits _ spec _ admitted hadmission
  | moves hmoves =>
    refine Nat.le_trans (total_le fun turnId slot' hslot' => ?_) hlimit
    have hmove := hmoves turnId
    rw [hslot'] at hmove
    generalize hold : w.state.stateTurns.lookup turnId = old at hmove
    cases hmove with
    | @moved slot _ hstep =>
      exact ⟨slot, rfl, hstep.queued_cost hI (hp slot) (hcost slot)⟩

/-! ### The queue -/

theorem mem_queue_step (hI : Identity w)
    (hqueue : ∀ slot, w.state.stateTurns.lookup turnId = some slot →
      slot.status = .turnQueued → slot.turnSlotCancelling = false → turnId ∈ w.state.stateQueue)
    (hkeeps : KeepsCounts w e) (h : Change config persistence w e w') {slot : TurnSlot}
    (hslot : w'.state.stateTurns.lookup turnId = some slot) (hqueued : slot.status = .turnQueued)
    (hunclaimed : slot.turnSlotCancelling = false) : turnId ∈ w'.state.stateQueue := by
  cases slot_origin hI.keyed h hslot with
  | @kept old _ hold hstep =>
    have hbefore := hstep.queued hI hqueued
    refine mem_queue_of_change h (hqueue old hold hbefore ?_) hslot hqueued hunclaimed
    cases hstep with
    | reserved => cases hqueued
    | ended hends =>
      have hend := (hends.spec hI).2
      change isActiveStatus (endedSlot _ old).status = false at hend
      rw [hqueued] at hend
      cases hend
    | claimed => cases hunclaimed
    | @released c cancellation hevent hcancel hphase hclaimed =>
      -- the claim of a turn of the queue is not undone
      have hactive : old.active = true := by
        show isActiveStatus old.status = true
        rw [hbefore]
        rfl
      have hreopens : Reopens w turnId c :=
        ⟨cancellation, old, hcancel, hold, hphase, hclaimed, hactive⟩
      obtain ⟨other, hreopened, hother⟩ := hreopens.reopened hI
      rw [hold] at hother
      cases hother
      rw [← hevent] at hreopened
      exact absurd hbefore (hkeeps.2.1 old hreopened)
    | waits => cases hqueued
    | resumed =>
      rw [(resumeWaitingTurn_key old).2.2.2.1] at hunclaimed
      exact hunclaimed
    | _ => exact hunclaimed
  | admitted _ _ _ hmem => exact hmem

/-! ### The workers -/

/-- What the invariant knows besides of the workers. -/
structure WorkerCounts (config : SupervisorConfig) (w : World) : Prop where
  /-- A turn that has a worker has a slot. -/
  slots : ∀ turnId i, w.state.stateWorkers.lookup turnId = some i →
    ∃ slot, w.state.stateTurns.lookup turnId = some slot
  /-- There is room for the worker of the turn that is reserved. -/
  room : ∀ turnId spec, w.dispatcher = .reserved turnId spec →
    w.state.stateWorkers.keys.length < config.supervisorMaxConcurrentTurns ∧
      ((w.state.stateWorkers.keys.filter
        (w.runsForTenant spec.turnSpecBoundary.accessTenantId)).length
          < config.supervisorMaxConcurrentTurnsPerTenant)

theorem slots_step (hW : WorkerCounts config w) (hkeeps : KeepsCounts w e)
    (h : Change config persistence w e w') {i : ℕ}
    (hregistered : w'.state.stateWorkers.lookup turnId = some i) :
    ∃ slot, w'.state.stateTurns.lookup turnId = some slot := by
  have hbefore : (∃ slot, w.state.stateTurns.lookup turnId = some slot) ∧
      (e.admittedTurn ≠ none → ∃ j, w.state.stateWorkers.lookup turnId = some j) ∨
      ∃ slot, w'.state.stateTurns.lookup turnId = some slot := by
    cases registration_change h with
    | same hstate =>
      rw [hstate] at hregistered
      exact .inl ⟨hW.slots turnId i hregistered, fun _ => ⟨i, hregistered⟩⟩
    | @spawned j other spec _ _ haccepted _ hstate =>
      rw [hstate] at hregistered ⊢
      have hlookup : (w.state.stateWorkers.insert other j).lookup turnId = some i := hregistered
      rw [lookup_insert] at hlookup
      obtain ⟨slot, hslot, -⟩ := acceptsWorker_eq_true.mp haccepted
      split at hlookup
      · next heq => exact .inr ⟨slot, heq ▸ hslot⟩
      · exact .inr (hW.slots turnId i hlookup)
    | @finished j worker _ _ _ hstate =>
      rw [hstate] at hregistered
      have hlookup : (w.state.stateWorkers.delete worker.turnId).lookup turnId = some i :=
        hregistered
      rw [lookup_delete] at hlookup
      split at hlookup
      · cases hlookup
      · exact .inl ⟨hW.slots turnId i hlookup, fun _ => ⟨i, hlookup⟩⟩
  rcases hbefore with ⟨⟨slot, hslot⟩, hworker⟩ | hnow
  · cases turns_change h with
    | @admits _ _ _ admitted hevent _ _ _ hturns =>
      rw [hturns, lookup_insert]
      split
      · exact ⟨_, rfl⟩
      · -- pruning has kept the slot of a turn with a worker
        obtain ⟨j, hj⟩ := hworker (by rw [hevent]; exact some_ne_none _)
        have hmem : turnId ∈ w.state.stateWorkers.keys := by
          rw [w.state.stateWorkers.mem_keys, hj]
          rfl
        exact isSome_iff_exists.mp (hkeeps.2.2 _ hevent turnId hmem)
    | moves hmoves =>
      have hmove := hmoves turnId
      rw [hslot] at hmove
      generalize w'.state.stateTurns.lookup turnId = new at hmove
      cases hmove with
      | moved => exact ⟨_, rfl⟩
  · exact hnow

/-- The tenant of a turn that has a worker stays what it is. -/
theorem filter_runsForTenant_eq (hI : Identity w) (hfresh : FreshAdmission w e)
    (h : Change config persistence w e w') (tenantId : Text) :
    w.state.stateWorkers.keys.filter (w'.runsForTenant tenantId)
      = w.state.stateWorkers.keys.filter (w.runsForTenant tenantId) := by
  refine filter_congr fun turnId hmem => ?_
  rw [w.state.stateWorkers.mem_keys] at hmem
  obtain ⟨i, hi⟩ := isSome_iff_exists.mp hmem
  obtain ⟨worker, hworker, hturn⟩ := hI.registered turnId i hi
  have hbefore := (hI.worker i worker hworker).2
  rw [hturn] at hbefore
  unfold World.runsForTenant
  rw [admitted_mono hfresh h hbefore, hbefore]

/-- The count of the dispatcher is exact. -/
theorem runningForTenant_eq (hI : Identity w) (hW : WorkerCounts config w) (tenantId : Text) :
    runningForTenant tenantId w.state.stateTurns w.state.stateWorkers
      = (w.state.stateWorkers.keys.filter (w.runsForTenant tenantId)).length := by
  unfold runningForTenant
  congr 1
  refine filter_congr fun turnId hmem => ?_
  rw [w.state.stateWorkers.mem_keys] at hmem
  obtain ⟨i, hi⟩ := isSome_iff_exists.mp hmem
  obtain ⟨slot, hslot⟩ := hW.slots turnId i hi
  have hadmitted := (hI.slot turnId slot hslot).1.2
  unfold World.runsForTenant
  rw [hslot, hadmitted]
  rfl

/-- The invariant of runs that keep the counts. -/
structure BoundsInvariant (config : SupervisorConfig) (w : World) : Prop where
  identity : Identity w
  claims : Claims w
  counts : WorkerCounts config w
  bounds : Bounds config w

theorem init_boundsInvariant : BoundsInvariant config .init where
  identity := init_identity
  claims := init_claims
  counts := by constructor <;> intros <;> contradiction
  bounds := by
    constructor
    · exact nodup_nil
    · intro turnId
      constructor
      · intro hmem
        cases hmem
      · rintro ⟨slot, hslot, -⟩
        cases hslot
    all_goals intros; exact Nat.zero_le _

section Counts

variable (hB : BoundsInvariant config w) (hkeeps : KeepsCounts w e)
  (h : Change config persistence w e w')
include hB hkeeps h

theorem room_step {spec : TurnSpec} (hdispatcher : w'.dispatcher = .reserved turnId spec) :
    w'.state.stateWorkers.keys.length < config.supervisorMaxConcurrentTurns ∧
      ((w'.state.stateWorkers.keys.filter
        (w'.runsForTenant spec.turnSpecBoundary.accessTenantId)).length
          < config.supervisorMaxConcurrentTurnsPerTenant) := by
  have hfilter := filter_runsForTenant_eq hB.identity hkeeps.1 h
    spec.turnSpecBoundary.accessTenantId
  rcases dispatcher_change h hdispatcher with hbefore | ⟨-, slot, tenantId, hreservable, hspec, hstate⟩
  · obtain ⟨hroom, htenant⟩ := hB.counts.room turnId spec hbefore
    rw [← hfilter] at htenant
    cases registration_change h with
    | same hstate =>
      rw [hstate]
      exact ⟨hroom, htenant⟩
    | spawned _ _ _ _ _ hchoosing =>
      rw [hchoosing] at hdispatcher
      cases hdispatcher
    | finished _ _ _ hstate =>
      rw [hstate]
      exact ⟨Nat.lt_of_le_of_lt length_keys_delete_le hroom,
        Nat.lt_of_le_of_lt length_filter_keys_delete_le htenant⟩
  · have hrunning := hreservable.tenant
    have hkey := (hB.identity.slot turnId slot hreservable.found).2
    have htenant : slot.turnSlotRecord.turnRecordBoundary = spec.turnSpecBoundary := by
      rw [hspec]
      exact (congrArg Prod.fst hkey).symm
    rw [htenant, runningForTenant_eq hB.identity hB.counts, ← hfilter] at hrunning
    rw [hstate]
    exact ⟨hreservable.workers, hrunning⟩

omit hkeeps in
theorem workers_step :
    w'.state.stateWorkers.keys.length ≤ config.supervisorMaxConcurrentTurns := by
  cases registration_change h with
  | same hstate =>
    rw [hstate]
    exact hB.bounds.workers
  | spawned hdispatcher _ _ _ hstate =>
    rw [hstate]
    exact Nat.le_trans length_keys_insert_le (hB.counts.room _ _ hdispatcher).1
  | finished _ _ _ hstate =>
    rw [hstate]
    exact Nat.le_trans length_keys_delete_le hB.bounds.workers

theorem tenantWorkers_step (tenantId : Text) :
    (w'.state.stateWorkers.keys.filter (w'.runsForTenant tenantId)).length
      ≤ config.supervisorMaxConcurrentTurnsPerTenant := by
  have hold : (w.state.stateWorkers.keys.filter (w'.runsForTenant tenantId)).length
      ≤ config.supervisorMaxConcurrentTurnsPerTenant := by
    rw [filter_runsForTenant_eq hB.identity hkeeps.1 h]
    exact hB.bounds.tenantWorkers tenantId
  cases registration_change h with
  | same hstate =>
    rw [hstate]
    exact hold
  | @spawned i turnId spec hdispatcher _ _ _ hstate =>
    have hinsert : (w'.state.stateWorkers.keys.filter (w'.runsForTenant tenantId)).length
        ≤ (w.state.stateWorkers.keys.filter (w'.runsForTenant tenantId)).length +
          (if w'.runsForTenant tenantId turnId then 1 else 0) := by
      rw [hstate]
      exact length_filter_keys_insert_le
    split at hinsert
    · next hof =>
      -- the new worker runs for the tenant of the turn that was reserved
      have hadmitted := admitted_mono hkeeps.1 h (hB.identity.reserved turnId spec hdispatcher).1
      unfold World.runsForTenant at hof
      rw [hadmitted, any_some, decide_eq_true_eq] at hof
      have htenant := (hB.counts.room turnId spec hdispatcher).2
      rw [show spec.turnSpecBoundary.accessTenantId = tenantId from hof,
        ← filter_runsForTenant_eq hB.identity hkeeps.1 h] at htenant
      exact Nat.le_trans hinsert htenant
    · exact Nat.le_trans hinsert hold
  | finished _ _ _ hstate =>
    rw [hstate]
    exact Nat.le_trans length_filter_keys_delete_le hold

omit hkeeps in
theorem queueLength_step : w'.state.stateQueue.length ≤ config.supervisorMaxQueuedTurns := by
  cases queue_change h with
  | same hqueue =>
    rw [hqueue]
    exact hB.bounds.queueLength
  | admitted _ _ hroom hqueue =>
    rw [hqueue, length_append]
    exact hroom
  | reserved hqueue | claimed hqueue =>
    rw [hqueue]
    exact Nat.le_trans (length_filter_le _ _) hB.bounds.queueLength
  | closed hqueue =>
    rw [hqueue]
    exact Nat.zero_le _

omit hB hkeeps h in
/-- What a turn of the tenant adds when it is admitted. -/
theorem queuedCost_admittedSlot_le {reservationHeld : Bool} {spec : TurnSpec}
    {record admitted : TurnRecord}
    (hadmission : Admission config reservationHeld spec record admitted w.state) {tenantId : Text}
    {cost : TurnSlot → ℕ} {limit : ℕ}
    (hold : w.state.stateTurns.total (queuedCost (ofTenant tenantId) cost) ≤ limit)
    (hroom : spec.turnSpecBoundary.accessTenantId = tenantId →
      w.state.stateTurns.total (queuedCost (ofTenant tenantId) cost) +
        cost (admittedSlot spec admitted) ≤ limit) :
    w.state.stateTurns.total (queuedCost (ofTenant tenantId) cost) +
      queuedCost (ofTenant tenantId) cost (admittedSlot spec admitted) ≤ limit := by
  by_cases htenant : spec.turnSpecBoundary.accessTenantId = tenantId
  · refine Nat.le_trans (Nat.add_le_add_left ?_ _) (hroom htenant)
    unfold queuedCost
    split
    · exact Nat.le_refl _
    · exact Nat.zero_le _
  · have hother : ofTenant tenantId (admittedSlot spec admitted) = false := by
      refine decide_eq_false ?_
      show admitted.turnRecordBoundary.accessTenantId ≠ tenantId
      rw [hadmission.tenant]
      exact htenant
    unfold queuedCost at hold ⊢
    rw [hother, Bool.and_false, if_neg Bool.false_ne_true, Nat.add_zero]
    exact hold

theorem bounds_step : Bounds config w' where
  queueNodup := queueNodup_step hB.identity hB.claims hkeeps.1 h
  mem_queue turnId := by
    constructor
    · exact queue_step hB.identity hB.claims hkeeps.1 h
    · rintro ⟨slot, hslot, hqueued, hunclaimed⟩
      refine mem_queue_step hB.identity ?_ hkeeps h hslot hqueued hunclaimed
      intro old hold hqueued hunclaimed
      exact (hB.bounds.mem_queue turnId).mpr ⟨old, hold, hqueued, hunclaimed⟩
  queueLength := queueLength_step hB h
  tenantQueued tenantId := by
    have hold := hB.bounds.tenantQueued tenantId
    rw [queuedForTenant_eq] at hold ⊢
    refine total_queuedCost_le hB.identity h (fun _ _ => rfl) (fun _ _ => rfl) hold ?_
    intro reservationHeld spec record admitted hadmission
    refine queuedCost_admittedSlot_le hadmission hold ?_
    rintro rfl
    have hroom := hadmission.tenantRoom
    rw [queuedForTenant_eq] at hroom
    exact hroom
  bytes := by
    have hold := hB.bounds.bytes
    rw [queuedAttachmentBytes_eq] at hold ⊢
    refine total_queuedCost_le hB.identity h (fun _ _ => rfl) (fun _ _ => rfl) hold ?_
    intro reservationHeld spec record admitted hadmission
    have hroom := hadmission.bytes
    rw [queuedAttachmentBytes_eq] at hroom
    refine Nat.le_trans (Nat.add_le_add_left ?_ _) hroom
    unfold queuedCost
    split
    · exact Nat.le_refl _
    · exact Nat.zero_le _
  tenantBytes tenantId := by
    have hold := hB.bounds.tenantBytes tenantId
    rw [queuedAttachmentBytesForTenant_eq] at hold ⊢
    refine total_queuedCost_le hB.identity h (fun _ _ => rfl) (fun _ _ => rfl) hold ?_
    intro reservationHeld spec record admitted hadmission
    refine queuedCost_admittedSlot_le hadmission hold ?_
    rintro rfl
    have hroom := hadmission.tenantBytes
    rw [queuedAttachmentBytesForTenant_eq] at hroom
    exact hroom
  workers := workers_step hB h
  tenantWorkers := tenantWorkers_step hB hkeeps h

theorem boundsInvariant_step : BoundsInvariant config w' where
  identity := identity_step hB.identity hkeeps.1 h
  claims := claims_step hB.identity hB.claims hkeeps.1 h
  counts :=
    { slots := fun _ _ => slots_step hB.counts hkeeps h
      room := fun _ _ => room_step hB hkeeps h }
  bounds := bounds_step hB hkeeps h

end Counts

end Step

/-! ### The claim about runs -/

/-- **While no turn of the queue is given up and no slot of a turn with a worker is dropped, the
queue holds the turns that wait, and nothing exceeds its limit.** -/
theorem bounds_hold (config : ValidConfig) (persistence : TurnPersistence) {w : World}
    (h : ReachableBy (World.step config.toSupervisorConfig persistence) KeepsCounts .init w) :
    Bounds config.toSupervisorConfig w := by
  refine (h.invariant init_boundsInvariant fun _ _ _ hB hkeeps hstep => ?_).bounds
  exact boundsInvariant_step hB hkeeps (step_change hstep)

/-- One turn runs, and one of another session waits. -/
theorem bounds_hold_in_exampleStart :
    ∃ w : World, ReachableBy (World.step exampleTurnConfig.toSupervisorConfig
        inMemoryTurnPersistence) KeepsCounts .init w ∧
      w.state.stateWorkers.keys = [1] ∧ w.state.stateQueue = [2] ∧
      Bounds exampleTurnConfig.toSupervisorConfig w := by
  have hrun : (Machine.run (guarded KeepsCounts
      (World.step exampleTurnConfig.toSupervisorConfig inMemoryTurnPersistence)) .init
      (exampleStart ++ [.submit (exampleTurnSpec ['r']) 2 3])).any
        (fun w => w.state.stateWorkers.keys == [1] && w.state.stateQueue == [2]) = true := by
    decide +kernel
  obtain ⟨w, hw, htest⟩ := exists_reachableBy_of_run hrun
  rw [Bool.and_eq_true, beq_iff_eq, beq_iff_eq] at htest
  exact ⟨w, hw, htest.1, htest.2, bounds_hold exampleTurnConfig inMemoryTurnPersistence hw⟩

/-- The cancellation of a turn of the queue is interrupted. -/
def givenUpRun : List SupervisorEvent :=
  [.submit (exampleTurnSpec ['s']) 1 0, .cancel 0 exampleTurnBoundary 1, .claim 0, .endHook 0,
    .joinWorker 0, .interruptCancel 0, .releaseClaim 0]

/-- **A turn that was given up waits, and is not in the queue.** -/
theorem given_up_turn_leaves_queue :
    ∃ w : World, Reachable (World.step exampleTurnConfig.toSupervisorConfig
        inMemoryTurnPersistence) .init w ∧
      ¬ Bounds exampleTurnConfig.toSupervisorConfig w := by
  have hrun : (Machine.run
      (World.step exampleTurnConfig.toSupervisorConfig inMemoryTurnPersistence) .init
      givenUpRun).any (fun w => w.state.stateQueue == [] &&
        (w.state.stateTurns.lookup 1).any fun slot =>
          decide (slot.status = .turnQueued) && !slot.turnSlotCancelling) = true := by
    decide +kernel
  obtain ⟨w, hw, htest⟩ := exists_reachable_of_run hrun
  rw [Bool.and_eq_true, beq_iff_eq, Option.any_eq_true] at htest
  obtain ⟨hqueue, slot, hslot, hwaits⟩ := htest
  rw [Bool.and_eq_true, decide_eq_true_eq, Bool.not_eq_true'] at hwaits
  refine ⟨w, hw, fun hbounds => ?_⟩
  have hmem := (hbounds.mem_queue 1).mpr ⟨slot, hslot, hwaits⟩
  rw [hqueue] at hmem
  cases hmem

end Server
end HaskellAgent
