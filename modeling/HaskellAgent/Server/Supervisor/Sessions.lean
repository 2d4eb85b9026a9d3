import HaskellAgent.Server.Supervisor.Claims

/-!
# Sessions are changed by one thread at a time

Admissions, turns and changes of a session exclude each other by the set of the active sessions.  A
reservation puts its session there and takes it out at the end; so does a turn, and it does so twice:
when its end is published, and when its worker finishes.  In between a reservation of the session may
begin, and the worker takes out what is not its own.
-/

open Machine

namespace HaskellAgent
namespace Server

/-- **A session is changed by one thread at a time.** -/
structure SessionExclusion (w : World) : Prop where
  oneReservation : ∀ r s key, w.reservations.lookup r = some key →
    w.reservations.lookup s = some key → r = s
  /-- A session stays active while it is reserved. -/
  reservedActive : ∀ r key, w.reservations.lookup r = some key →
    key ∈ w.state.stateActiveSessions
  noRunner : ∀ r key, w.reservations.lookup r = some key → ∀ i worker,
    w.workers.lookup i = some worker → worker.phase = .running → worker.spec.key ≠ key
  oneTurn : ∀ turnId other slot otherSlot, w.state.stateTurns.lookup turnId = some slot →
    w.state.stateTurns.lookup other = some otherSlot → slot.active = true →
    otherSlot.active = true → slot.turnSlotRecord.key = otherSlot.turnSlotRecord.key →
    turnId = other

/-- No turn is admitted again, and no session is taken out that somebody else has reserved. -/
def KeepsReservations (w : World) (e : SupervisorEvent) : Prop :=
  FreshAdmission w e ∧ ∀ key ∈ w.clearedSession e, ∀ r ∈ w.reservations.keys,
    w.reservations.lookup r = some key → e = .release r

instance (w : World) (e : SupervisorEvent) : Decidable (KeepsReservations w e) := by
  unfold KeepsReservations
  infer_instance

/-- The worker has found that the turn may start, and its runner has not returned. -/
def WorkerPhase.launched : WorkerPhase → Bool
  | .marked | .running => true
  | _ => false

/-- The call has claimed its turn and is going to end it. -/
def CancelPhase.ending : CancelPhase → Bool
  | .interrupting _ _ | .stopping _ _ _ | .persisting _ | .publishing _ => true
  | .claiming | .releasing _ => false

theorem WorkerPhase.not_launched_of_canonical {phase : WorkerPhase} {canonical : TurnRecord}
    (h : phase.canonical = some canonical) : phase.launched = false := by
  cases phase with
  | publishing | failingWrite => rfl
  | _ => cases h

theorem CancelPhase.ending_of_canonical {phase : CancelPhase} {canonical : TurnRecord}
    (h : phase.canonical = some canonical) : phase.ending = true ∧ phase.target = none := by
  cases phase with
  | publishing => exact ⟨rfl, rfl⟩
  | _ => cases h

theorem CancelPhase.record_of_ending {phase : CancelPhase} (h : phase.ending = true) :
    ∃ record, phase.record = some record := by
  cases phase with
  | claiming | releasing => cases h
  | interrupting record | stopping record | persisting record | publishing record =>
    exact ⟨record, rfl⟩

/-- The invariant of runs that keep the reservations. -/
structure SessionInvariant (w : World) : Prop where
  identity : Identity w
  claims : Claims w
  oneReservation : ∀ r s key, w.reservations.lookup r = some key →
    w.reservations.lookup s = some key → r = s
  reservedActive : ∀ r key, w.reservations.lookup r = some key →
    key ∈ w.state.stateActiveSessions
  /-- A turn of a session that is reserved is waiting. -/
  reservedQueued : ∀ r key, w.reservations.lookup r = some key → ∀ turnId slot,
    w.state.stateTurns.lookup turnId = some slot → slot.turnSlotRecord.key = key →
    slot.active = true → slot.status = .turnQueued
  oneTurn : ∀ turnId other slot otherSlot, w.state.stateTurns.lookup turnId = some slot →
    w.state.stateTurns.lookup other = some otherSlot → slot.active = true →
    otherSlot.active = true → slot.turnSlotRecord.key = otherSlot.turnSlotRecord.key →
    turnId = other
  launched : ∀ i worker, w.workers.lookup i = some worker → worker.phase.launched = true →
    ActiveTurn w worker.turnId
  /-- A call that is going to end a turn stops its runner before. -/
  ending : ∀ c cancellation i worker, w.cancellations.lookup c = some cancellation →
    w.workers.lookup i = some worker → worker.turnId = cancellation.turnId →
    cancellation.phase.ending = true → worker.phase.launched = true →
    cancellation.phase.target = some i

theorem init_sessionInvariant : SessionInvariant .init := by
  constructor
  · exact init_identity
  · exact init_claims
  all_goals intros; contradiction

section Step

variable {config : SupervisorConfig} {persistence : TurnPersistence} {w w' : World}
  {e : SupervisorEvent} {turnId : TurnId} {i : ℕ}

theorem SessionInvariant.exclusion (hS : SessionInvariant w) : SessionExclusion w where
  oneReservation := hS.oneReservation
  reservedActive := hS.reservedActive
  noRunner := by
    intro r key hr i worker hworker hphase hkey
    obtain ⟨slot, hslot, hactive⟩ := hS.launched i worker hworker (by rw [hphase]; rfl)
    obtain ⟨hregistered, hadmitted⟩ := hS.identity.worker i worker hworker
    rw [(hS.identity.slot _ slot hslot).1.2] at hadmitted
    have hqueued := hS.reservedQueued r key hr _ slot hslot
      ((Option.some.inj hadmitted).trans hkey) hactive
    -- a turn that waits has no worker
    rw [(hS.identity.queued _ slot hslot hqueued).1] at hregistered
    cases hregistered
  oneTurn := hS.oneTurn

/-- A slot keeps its session. -/
theorem SlotStep.key (hI : Identity w) {slot slot' : TurnSlot}
    (hslot : w.state.stateTurns.lookup turnId = some slot)
    (hstep : SlotStep config w e w' turnId slot slot') :
    slot'.turnSlotRecord.key = slot.turnSlotRecord.key := by
  obtain ⟨hrecord, hspec⟩ := hI.slot turnId slot hslot
  have hrecord' := (hstep.record hI hrecord hspec).1.2
  rw [hrecord.2] at hrecord'
  exact (Option.some.inj hrecord').symm

section Invariant

variable (hS : SessionInvariant w) (hkeeps : KeepsReservations w e)
  (h : Change config persistence w e w')
include hS hkeeps h

theorem reservedActive_step {r : ℕ} {key : SessionKey}
    (hr : w'.reservations.lookup r = some key) : key ∈ w'.state.stateActiveSessions := by
  rcases reservation_change h hr with hold | ⟨-, -, -, hactive, -⟩
  · rcases session_kept h (hS.reservedActive r key hold) with hkept | ⟨hcleared, hreleased⟩
    · exact hkept
    · -- who takes the session out is who has reserved it
      have hmem : r ∈ w.reservations.keys := by
        rw [w.reservations.mem_keys, hold]
        rfl
      have hevent := hkeeps.2 key hcleared r hmem hold
      rw [hreleased r hevent, FinMap.lookup_delete_self] at hr
      cases hr
  · exact hactive

omit hkeeps in
theorem oneReservation_step {r s : ℕ} {key : SessionKey}
    (hr : w'.reservations.lookup r = some key) (hs : w'.reservations.lookup s = some key) :
    r = s := by
  rcases reservation_change h hr with hr' | ⟨-, hfree, -, -, hinsert⟩
  · rcases reservation_change h hs with hs' | ⟨-, hfree, -⟩
    · exact hS.oneReservation r s key hr' hs'
    · exact absurd (hS.reservedActive r key hr') hfree
  · rw [hinsert, FinMap.lookup_insert] at hs
    split at hs
    · next heq => exact heq.symm
    · exact absurd (hS.reservedActive s key hs) hfree

omit hkeeps in
theorem reservedQueued_step {r : ℕ} {key : SessionKey} (hr : w'.reservations.lookup r = some key)
    {slot : TurnSlot} (hslot : w'.state.stateTurns.lookup turnId = some slot)
    (hkey : slot.turnSlotRecord.key = key) (hactive : slot.active = true) :
    slot.status = .turnQueued := by
  have hI := hS.identity
  rcases reservation_change h hr with hold | ⟨hidle, -, hturns, -⟩
  · cases slot_origin hI.keyed h hslot with
    | @kept old _ hslot' hstep =>
      have hqueued := hS.reservedQueued r key hold turnId old hslot'
        ((hstep.key hI hslot').symm.trans hkey) (hstep.active hI hactive)
      cases hstep with
      | reserved hreservable =>
        exact absurd (hkey ▸ hS.reservedActive r key hold) hreservable.free
      | started _ _ _ hrunning =>
        rw [hqueued] at hrunning
        cases hrunning
      | ended hends =>
        rw [show (endedSlot _ old).active = _ from (hends.spec hI).2] at hactive
        cases hactive
      | waits _ hwaiter _ hturn =>
        have hstart := (hI.waiter _ _ hwaiter).2
        rw [hturn] at hstart
        exact absurd hstart (hI.queued turnId old hslot' hqueued).2
      | resumed =>
        unfold resumeWaitingTurn
        rw [if_neg (by rw [hqueued]; exact TurnStatus.noConfusion)]
        exact hqueued
      | _ => exact hqueued
    | admitted _ _ _ _ hadmission => exact hadmission.queued
  · -- no turn of a session is active when it is reserved
    rw [hturns] at hslot
    rw [sessionBusy_eq_false hidle hslot hkey] at hactive
    cases hactive

omit hkeeps in
theorem oneTurn_step {other : TurnId} {slot otherSlot : TurnSlot}
    (hslot : w'.state.stateTurns.lookup turnId = some slot)
    (hother : w'.state.stateTurns.lookup other = some otherSlot) (hactive : slot.active = true)
    (hactive' : otherSlot.active = true)
    (hkey : slot.turnSlotRecord.key = otherSlot.turnSlotRecord.key) : turnId = other := by
  have hI := hS.identity
  cases slot_origin hI.keyed h hslot with
  | @kept old _ hold hstep =>
    cases slot_origin hI.keyed h hother with
    | @kept old' _ hold' hstep' =>
      refine hS.oneTurn turnId other old old' hold hold' (hstep.active hI hactive)
        (hstep'.active hI hactive') ?_
      rw [← hstep.key hI hold, ← hstep'.key hI hold', hkey]
    | admitted _ _ _ _ hadmission =>
      have hidle := sessionBusy_eq_false hadmission.idle hold
        ((hstep.key hI hold).symm.trans (hkey.trans hadmission.key))
      rw [hstep.active hI hactive] at hidle
      cases hidle
  | admitted hevent _ _ _ hadmission =>
    cases slot_origin hI.keyed h hother with
    | kept hold hstep =>
      have hidle := sessionBusy_eq_false hadmission.idle hold
        ((hstep.key hI hold).symm.trans (hkey.symm.trans hadmission.key))
      rw [hstep.active hI hactive'] at hidle
      cases hidle
    | admitted hevent' =>
      rw [hevent] at hevent'
      exact Option.some.inj hevent'

omit hS hkeeps in
/-- A worker that is launched now starts an open turn, or it was launched before. -/
theorem launched_of_change {worker : Worker} (hworker : w'.workers.lookup i = some worker)
    (hlaunched : worker.phase.launched = true) :
    (∃ old, w.workers.lookup i = some old ∧ old.turnId = worker.turnId ∧
      old.phase.launched = true) ∨
      (OpenTurn w worker.turnId ∧ ActiveTurn w' worker.turnId) := by
  cases worker_change h hworker with
  | same hold => exact .inl ⟨worker, hold, rfl, hlaunched⟩
  | spawned => cases hlaunched
  | @moved old phase hold hstep =>
    cases hstep with
    | moves hmoves => cases hmoves <;> cases hlaunched
    | @marked now _ _ hmark hstate =>
      obtain ⟨slot, hslot, hrunning, hunclaimed, -, hstate'⟩ := markTurnStarted_eq_some hmark
      have hactive : slot.active = true := by
        show isActiveStatus slot.status = true
        rw [hrunning]
        rfl
      refine .inr ⟨⟨slot, hslot, hactive, hunclaimed⟩, ?_⟩
      rw [hstate'] at hstate
      have hslot' : w'.state.stateTurns.lookup old.turnId = some (startedSlot now slot) := by
        rw [hstate]
        exact FinMap.lookup_insert_self
      exact ⟨startedSlot now slot, hslot', hactive⟩
    | runs _ hphase =>
      refine .inl ⟨old, hold, rfl, ?_⟩
      rw [hphase]
      rfl
    | commits hcommits =>
      generalize old.phase = before at hcommits
      cases hcommits <;> cases hlaunched
    | _ => cases hlaunched

theorem launched_step {worker : Worker} (hworker : w'.workers.lookup i = some worker)
    (hlaunched : worker.phase.launched = true) : ActiveTurn w' worker.turnId := by
  have hI := hS.identity
  have hC := hS.claims
  rcases launched_of_change h hworker hlaunched with
    ⟨old, hold, hturn, hbefore⟩ | ⟨-, hactive⟩
  · obtain ⟨slot, hslot, hactive⟩ := hS.launched i old hold hbefore
    rw [hturn] at hslot
    cases slot_fate hI.keyed h hslot with
    | kept hslot' hstep =>
      refine ⟨_, hslot', ?_⟩
      cases hstep with
      | reserved => rfl
      | ended hends =>
        -- whoever ends a turn, its runner has been stopped before
        exfalso
        rcases hends.cause hI with ⟨j, ender, hender, hends, hcanonical⟩ |
          ⟨c, cancellation, hcancel, hends, hcanonical⟩ | ⟨hcanonical, -⟩
        · have hsame := hI.worker_unique hold hender (hturn.trans hends.symm)
          subst hsame
          rw [hold] at hender
          cases hender
          rw [WorkerPhase.not_launched_of_canonical hcanonical] at hbefore
          cases hbefore
        · have hphase := CancelPhase.ending_of_canonical hcanonical
          have htarget := hS.ending c cancellation i old hcancel hold (hturn.trans hends.symm)
            hphase.1 hbefore
          rw [hphase.2] at htarget
          cases htarget
        · rw [hC.stopped (Closer.stoppedWorkers_of_mem hcanonical) i] at hold
          cases hold
      | waits => rfl
      | resumed =>
        rw [(resumeWaitingTurn_key slot).2.2.2.2]
        exact hactive
      | _ => exact hactive
    | replaced hevent =>
      have hrecord := (hI.slot _ slot hslot).1.2
      rw [hkeeps.1 _ hevent] at hrecord
      cases hrecord
    | pruned _ hended =>
      rw [hactive] at hended
      cases hended
  · exact hactive

omit hkeeps in
theorem ending_step {c : ℕ} {cancellation : Cancellation} {worker : Worker}
    (hcancel : w'.cancellations.lookup c = some cancellation)
    (hworker : w'.workers.lookup i = some worker) (hturn : worker.turnId = cancellation.turnId)
    (hending : cancellation.phase.ending = true) (hlaunched : worker.phase.launched = true) :
    cancellation.phase.target = some i := by
  have hI := hS.identity
  obtain ⟨record, hrecord⟩ := CancelPhase.record_of_ending hending
  have hbefore : (∃ old, w.workers.lookup i = some old ∧ old.turnId = cancellation.turnId ∧
      old.phase.launched = true) ∨ OpenTurn w cancellation.turnId := by
    rw [← hturn]
    exact (launched_of_change h hworker hlaunched).imp id And.left
  -- nobody starts a turn that is claimed
  have hnotOpen : ∀ old, w.cancellations.lookup c = some old → old.turnId = cancellation.turnId →
      old.phase.ending = true → ∃ worker, w.workers.lookup i = some worker ∧
        worker.turnId = cancellation.turnId ∧ worker.phase.launched = true := by
    intro old hold hsame hheld
    obtain ⟨held, hheld⟩ := CancelPhase.record_of_ending hheld
    rcases hbefore with hworker | hopen
    · exact hworker
    · exact absurd (hsame ▸ hopen) (hS.claims.claimed c old hold held hheld)
  cases cancellation_change h hcancel with
  | same hold =>
    obtain ⟨old, hlookup, hsame, hold'⟩ := hnotOpen cancellation hold rfl hending
    exact hS.ending c cancellation i old hold hlookup hsame hending hold'
  | begins hclaiming =>
    rw [hclaiming] at hending
    cases hending
  | claims _ _ hclaim hstate =>
    obtain ⟨slot, -, -, -, -, htarget, -, hstate'⟩ := claimCancellation_eq_claimed hclaim
    have hregistered := registered_of_worker hI h hworker
    rw [hstate, hstate', hturn] at hregistered
    exact htarget.trans hregistered
  | @moved old phase hold hmoves =>
    have hheld : old.phase.ending = true := by
      generalize old.phase = before at hmoves
      cases hmoves with
      | joined | endHook => rfl
      | interruptedStop | interruptedPersist => cases hending
    obtain ⟨worker', hlookup, hsame, hlaunched'⟩ := hnotOpen old hold rfl hheld
    have htarget := hS.ending c old i worker' hold hlookup hsame hheld hlaunched'
    generalize old.phase = before at hmoves htarget
    cases hmoves with
    | endHook => exact htarget
    | @joined _ target doomed hstopped =>
      -- the worker has been waited for
      have hjoined : target = some i := htarget
      subst hjoined
      unfold World.stoppedWorker at hstopped
      rw [Option.all_some, hlookup] at hstopped
      cases hstopped
    | interruptedStop | interruptedPersist => cases hending
  | @commits old _ canonical _ _ hold hpersisting =>
    have hheld : old.phase.ending = true := by
      rw [hpersisting]
      rfl
    obtain ⟨worker', hlookup, hsame, hlaunched'⟩ := hnotOpen old hold rfl hheld
    have htarget := hS.ending c old i worker' hold hlookup hsame hheld hlaunched'
    rw [hpersisting] at htarget
    cases htarget

theorem sessionInvariant_step : SessionInvariant w' where
  identity := identity_step hS.identity hkeeps.1 h
  claims := claims_step hS.identity hS.claims hkeeps.1 h
  oneReservation _ _ _ hr hs := oneReservation_step hS h hr hs
  reservedActive _ _ hr := reservedActive_step hS hkeeps h hr
  reservedQueued _ _ hr _ _ hslot hkey hactive := reservedQueued_step hS h hr hslot hkey hactive
  oneTurn _ _ _ _ hslot hother hactive hactive' hkey :=
    oneTurn_step hS h hslot hother hactive hactive' hkey
  launched _ _ hworker hlaunched := launched_step hS hkeeps h hworker hlaunched
  ending _ _ _ _ hcancel hworker hturn hending hlaunched :=
    ending_step hS h hcancel hworker hturn hending hlaunched

end Invariant

end Step

/-! ### The claim about runs -/

/-- **While no session is taken out that somebody else has reserved, sessions are changed by one
thread at a time.** -/
theorem sessions_exclude (config : ValidConfig) (persistence : TurnPersistence) {w : World}
    (h : ReachableBy (World.step config.toSupervisorConfig persistence) KeepsReservations
      .init w) : SessionExclusion w := by
  refine (h.invariant init_sessionInvariant fun _ _ _ hS hkeeps hstep => ?_).exclusion
  exact sessionInvariant_step hS hkeeps (step_change hstep)

/-- One session is reserved while a turn of another one runs. -/
theorem sessions_exclude_in_exampleStart :
    ∃ w : World, ReachableBy (World.step exampleTurnConfig.toSupervisorConfig
        inMemoryTurnPersistence) KeepsReservations .init w ∧
      w.reservations.lookup 0 = some (exampleTurnSpec ['r']).key ∧ w.runnerStarts = [1] ∧
      SessionExclusion w := by
  have hrun : (Machine.run (guarded KeepsReservations
      (World.step exampleTurnConfig.toSupervisorConfig inMemoryTurnPersistence)) .init
      (exampleStart ++ [.acquire 0 (exampleTurnSpec ['r']).key false])).any
        (fun w => decide (w.reservations.lookup 0 = some (exampleTurnSpec ['r']).key) &&
          w.runnerStarts == [1]) = true := by
    decide +kernel
  obtain ⟨w, hw, htest⟩ := exists_reachableBy_of_run hrun
  rw [Bool.and_eq_true, decide_eq_true_eq, beq_iff_eq] at htest
  exact ⟨w, hw, htest.1, htest.2, sessions_exclude exampleTurnConfig inMemoryTurnPersistence hw⟩

/-- The record that turn 1 has when its runner has succeeded. -/
def exampleDone : TurnRecord :=
  { newTurnRecord (exampleTurnSpec ['s']) 1 0 with
    turnRecordStatus := .turnCompleted
    turnRecordStartedAt := some 1
    turnRecordFinishedAt := some 2 }

/-- A session is reserved between the publication of its turn and the end of the worker. -/
def lateClearRun : List SupervisorEvent :=
  exampleStart ++ [.endRunner 0 none, .readFinal 0, .persistFinal 0 2 exampleDone, .publishFinal 0,
    .acquire 0 (exampleTurnSpec ['s']).key false, .leave 0, .finish 0,
    .acquire 1 (exampleTurnSpec ['s']).key false]

/-- **Two reservations of one session are held at the same time.** -/
theorem two_reservations_are_held :
    ∃ w : World, Reachable (World.step exampleTurnConfig.toSupervisorConfig
        inMemoryTurnPersistence) .init w ∧ ¬ SessionExclusion w := by
  have hrun : (Machine.run
      (World.step exampleTurnConfig.toSupervisorConfig inMemoryTurnPersistence) .init
      lateClearRun).any (fun w =>
        decide (w.reservations.lookup 0 = some (exampleTurnSpec ['s']).key) &&
          decide (w.reservations.lookup 1 = some (exampleTurnSpec ['s']).key)) = true := by
    decide +kernel
  obtain ⟨w, hw, htest⟩ := exists_reachable_of_run hrun
  rw [Bool.and_eq_true, decide_eq_true_eq, decide_eq_true_eq] at htest
  refine ⟨w, hw, fun hexclusion => ?_⟩
  have heq := hexclusion.oneReservation 0 1 _ htest.1 htest.2
  cases heq

end Server
end HaskellAgent
