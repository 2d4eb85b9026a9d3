import HaskellAgent.Server.Supervisor.Threads

/-!
# Who is who in the supervisor

As long as no turn is admitted again under an identifier, every slot, worker, record and request
belongs to the one turn with its identifier, and a turn has a worker only once it has left the queue.
-/

open List FinMap Machine

namespace HaskellAgent

namespace Server

/-- It is a record of this turn, with the session that the turn was admitted with. -/
def RecordOf (w : World) (turnId : TurnId) (record : TurnRecord) : Prop :=
  record.turnRecordId = turnId ∧ w.admitted.lookup turnId = some record.key

/-- The runner has not been started. -/
def WorkerPhase.unstarted : WorkerPhase → Bool
  | .entering | .looking | .starting _ | .marking | .marked => true
  | .running | .finalizing _ | .persisting _ _ | .publishing _ | .leaving | .failing _
  | .failingPersist _ _ | .failingWrite _ | .finishing => false

/-- The record that a worker is about to end the turn with. -/
def WorkerPhase.canonical : WorkerPhase → Option TurnRecord
  | .publishing canonical | .failingWrite canonical => some canonical
  | _ => none

/-- The record of the turn that a worker has read to end it. -/
def WorkerPhase.record : WorkerPhase → Option TurnRecord
  | .persisting record _ | .failingPersist record _ => some record
  | .publishing canonical | .failingWrite canonical => some canonical
  | _ => none

def CancelPhase.canonical : CancelPhase → Option TurnRecord
  | .publishing canonical => some canonical
  | _ => none

/-- The record that a call of `cancelTurn` has claimed the turn with. -/
def CancelPhase.record : CancelPhase → Option TurnRecord
  | .claiming => none
  | .interrupting record _ | .stopping record _ _ | .persisting record | .publishing record
  | .releasing record => some record

/-- The worker that a call of `cancelTurn` stops. -/
def CancelPhase.target : CancelPhase → Option ℕ
  | .interrupting _ worker | .stopping _ worker _ => worker
  | _ => none

def Closer.canonicals : Closer → List TurnRecord
  | .persisting _ finished => finished
  | .publishing canonicals => canonicals
  | _ => []

def Closer.records : Closer → List TurnRecord
  | .stopping _ _ _ records => records
  | .persisting pending finished => pending ++ finished
  | .publishing canonicals => canonicals
  | _ => []

theorem WorkerPhase.record_of_canonical {phase : WorkerPhase} {canonical : TurnRecord}
    (h : phase.canonical = some canonical) : phase.record = some canonical := by
  cases phase <;> first
    | exact h
    | cases h

theorem CancelPhase.record_of_canonical {phase : CancelPhase} {canonical : TurnRecord}
    (h : phase.canonical = some canonical) : phase.record = some canonical := by
  cases phase <;> first
    | exact h
    | cases h

/-- **Everything belongs to the one turn with its identifier.** -/
structure Identity (w : World) : Prop where
  slot : ∀ turnId slot, w.state.stateTurns.lookup turnId = some slot →
    RecordOf w turnId slot.turnSlotRecord ∧ slot.turnSlotSpec.key = slot.turnSlotRecord.key
  worker : ∀ i worker, w.workers.lookup i = some worker →
    w.state.stateWorkers.lookup worker.turnId = some i ∧
      w.admitted.lookup worker.turnId = some worker.spec.key
  threads : ∀ i worker, w.workers.lookup i = some worker → i < w.workerThreads
  registered : ∀ turnId i, w.state.stateWorkers.lookup turnId = some i →
    ∃ worker, w.workers.lookup i = some worker ∧ worker.turnId = turnId
  reserved : ∀ turnId spec, w.dispatcher = .reserved turnId spec →
    w.admitted.lookup turnId = some spec.key ∧ w.state.stateWorkers.lookup turnId = none ∧
      turnId ∉ w.runnerStarts ∧
      ∀ slot, w.state.stateTurns.lookup turnId = some slot → slot.status ≠ .turnQueued
  /-- A turn in the queue has no worker, and has not been started. -/
  queued : ∀ turnId slot, w.state.stateTurns.lookup turnId = some slot →
    slot.status = .turnQueued →
      w.state.stateWorkers.lookup turnId = none ∧ turnId ∉ w.runnerStarts
  /-- A turn that waits for input has been started. -/
  waiting : ∀ turnId slot, w.state.stateTurns.lookup turnId = some slot →
    slot.status = .turnWaitingForInput → turnId ∈ w.runnerStarts
  unstarted : ∀ i worker, w.workers.lookup i = some worker → worker.phase.unstarted = true →
    worker.turnId ∉ w.runnerStarts
  started : ∀ turnId ∈ w.runnerStarts, ∃ key, w.admitted.lookup turnId = some key
  startedOnce : w.runnerStarts.Nodup
  workerRecord : ∀ i worker, w.workers.lookup i = some worker → ∀ record,
    worker.phase.record = some record → RecordOf w worker.turnId record
  workerEnd : ∀ i worker, w.workers.lookup i = some worker → ∀ canonical,
    worker.phase.canonical = some canonical → canonical.active = false
  cancelRecord : ∀ c cancellation, w.cancellations.lookup c = some cancellation → ∀ record,
    cancellation.phase.record = some record → RecordOf w cancellation.turnId record
  /-- The worker that a cancellation stops is the one of its turn. -/
  cancelTarget : ∀ c cancellation, w.cancellations.lookup c = some cancellation → ∀ i,
    cancellation.phase.target = some i → i < w.workerThreads ∧
      ∀ worker, w.workers.lookup i = some worker → worker.turnId = cancellation.turnId
  cancelEnd : ∀ c cancellation, w.cancellations.lookup c = some cancellation → ∀ canonical,
    cancellation.phase.canonical = some canonical → canonical.active = false
  closerRecord : ∀ record ∈ w.closer.records, RecordOf w record.turnRecordId record
  closerEnd : ∀ canonical ∈ w.closer.canonicals, canonical.active = false
  closer : w.closer ≠ .absent → w.state.stateClosed = true
  waiter : ∀ q waiter, w.waiters.lookup q = some waiter →
    waiter.request.humanRequestId = q ∧ waiter.request.humanRequestTurnId ∈ w.runnerStarts
  pending : ∀ q request, w.state.statePendingInputs.lookup q = some request →
    ∃ waiter, w.waiters.lookup q = some waiter ∧ waiter.request = request

/-- Somebody still has to end the turn. -/
def ActiveTurn (w : World) (turnId : TurnId) : Prop :=
  ∃ slot, w.state.stateTurns.lookup turnId = some slot ∧ slot.active = true

/-- The turn is active, and nobody has claimed it. -/
def OpenTurn (w : World) (turnId : TurnId) : Prop :=
  ∃ slot, w.state.stateTurns.lookup turnId = some slot ∧ slot.active = true ∧
    slot.turnSlotCancelling = false

theorem init_identity : Identity .init := by
  constructor <;> intros <;> first
    | exact nodup_nil
    | contradiction

section Step

variable {config : SupervisorConfig} {persistence : TurnPersistence} {w w' : World}
  {e : SupervisorEvent} {turnId : TurnId} {i : ℕ}

theorem Identity.keyed (hI : Identity w) : KeyedByTurn w.state.stateTurns :=
  fun turnId slot hslot => (hI.slot turnId slot hslot).1.1

/-- No two workers have the same turn. -/
theorem Identity.worker_unique (hI : Identity w) {j : ℕ} {worker other : Worker}
    (hworker : w.workers.lookup i = some worker) (hother : w.workers.lookup j = some other)
    (hturn : worker.turnId = other.turnId) : i = j := by
  have hi := (hI.worker i worker hworker).1
  have hj := (hI.worker j other hother).1
  rw [hturn, hj] at hi
  exact (Option.some.inj hi).symm

/-! ### What only grows -/

theorem admitted_mono (hfresh : FreshAdmission w e) (h : Change config persistence w e w')
    {key : SessionKey} (hadmitted : w.admitted.lookup turnId = some key) :
    w'.admitted.lookup turnId = some key := by
  cases h with
  | @admits _ _ _ _ admitted _ hevent _ henqueue =>
    obtain ⟨hadmission, -⟩ := enqueueTurnRecord_eq_ok henqueue
    have hnew := hfresh _ hevent
    have hne : turnId ≠ admitted.turnRecordId := by
      intro heq
      rw [← hadmission.turnId, ← heq, hadmitted] at hnew
      cases hnew
    show (FinMap.insert _ _ _).lookup turnId = _
    rw [lookup_insert_of_ne hne]
    exact hadmitted
  | input hinput => cases hinput <;> exact hadmitted
  | _ => exact hadmitted

theorem RecordOf.mono (hfresh : FreshAdmission w e) (h : Change config persistence w e w')
    {record : TurnRecord} (hrecord : RecordOf w turnId record) : RecordOf w' turnId record :=
  ⟨hrecord.1, admitted_mono hfresh h hrecord.2⟩

/-- A runner is started by its worker only. -/
theorem starts_change (h : Change config persistence w e w') :
    w'.runnerStarts = w.runnerStarts ∨ ∃ i worker, e = .startRunner i ∧
      w.workers.lookup i = some worker ∧ worker.phase = .marked ∧
      w'.runnerStarts = w.runnerStarts ++ [worker.turnId] ∧
      w'.workers = w.workers.insert i { worker with phase := .running } ∧ w'.state = w.state := by
  cases h with
  | startRunner hworker hphase => exact .inr ⟨_, _, rfl, hworker, hphase, rfl, rfl, rfl⟩
  | input hinput =>
    refine .inl ?_
    cases hinput <;> rfl
  | _ => exact .inl rfl

theorem starts_mono (h : Change config persistence w e w') (hstart : turnId ∈ w.runnerStarts) :
    turnId ∈ w'.runnerStarts := by
  rcases starts_change h with hsame | ⟨i, worker, -, -, -, hstarts, -⟩
  · rw [hsame]
    exact hstart
  · rw [hstarts]
    exact mem_append_left _ hstart

/-- A turn that has no worker is not started. -/
theorem not_started_of_change (hI : Identity w) (h : Change config persistence w e w')
    (hworker : w.state.stateWorkers.lookup turnId = none) (hstart : turnId ∉ w.runnerStarts) :
    turnId ∉ w'.runnerStarts := by
  rcases starts_change h with hsame | ⟨i, worker, -, hlookup, -, hstarts, -⟩
  · rw [hsame]
    exact hstart
  · rw [hstarts, mem_append, mem_singleton]
    rintro (hmem | heq)
    · exact hstart hmem
    · have hregistered := (hI.worker i worker hlookup).1
      rw [← heq, hworker] at hregistered
      cases hregistered

/-- A turn without a worker gets one from the dispatcher only. -/
theorem unregistered_of_change (h : Change config persistence w e w')
    (hworker : w.state.stateWorkers.lookup turnId = none)
    (hreserved : ∀ spec, w.dispatcher ≠ .reserved turnId spec) :
    w'.state.stateWorkers.lookup turnId = none := by
  cases registration_change h with
  | same hstate =>
    rw [hstate]
    exact hworker
  | @spawned i other spec hdispatcher _ _ _ hstate =>
    have hne : turnId ≠ other := by
      rintro rfl
      exact hreserved spec hdispatcher
    rw [hstate]
    show (w.state.stateWorkers.insert other i).lookup turnId = none
    rw [lookup_insert_of_ne hne]
    exact hworker
  | @finished i worker _ _ _ hstate =>
    rw [hstate]
    show (w.state.stateWorkers.delete worker.turnId).lookup turnId = none
    rw [lookup_delete]
    split
    · rfl
    · exact hworker

/-! ### Slots -/

theorem Ends.spec (hI : Identity w) {canonical : TurnRecord} (h : Ends w turnId canonical e) :
    RecordOf w turnId canonical ∧ canonical.active = false := by
  cases h with
  | final hworker hphase hid =>
    have hrecord := hI.workerRecord _ _ hworker canonical (by rw [hphase]; rfl)
    have hend := hI.workerEnd _ _ hworker canonical (by rw [hphase]; rfl)
    have hturn := hrecord.1
    rw [hid] at hturn
    rw [hturn]
    exact ⟨hrecord, hend⟩
  | stateOnly hworker hphase hid =>
    have hrecord := hI.workerRecord _ _ hworker canonical (by rw [hphase]; rfl)
    have hend := hI.workerEnd _ _ hworker canonical (by rw [hphase]; rfl)
    exact ⟨hid ▸ hrecord, hend⟩
  | cancelled hcancel hphase hid =>
    have hrecord := hI.cancelRecord _ _ hcancel canonical (by rw [hphase]; rfl)
    have hend := hI.cancelEnd _ _ hcancel canonical (by rw [hphase]; rfl)
    have hturn := hrecord.1
    rw [hid] at hturn
    rw [hturn]
    exact ⟨hrecord, hend⟩
  | closed hcloser hid =>
    have hrecord := hI.closerRecord canonical (by rw [hcloser]; exact mem_cons_self)
    have hend := hI.closerEnd canonical (by rw [hcloser]; exact mem_cons_self)
    exact ⟨hid ▸ hrecord, hend⟩

/-- Who ends a turn: its worker, a call that cancels it, or who closes the supervisor. -/
theorem Ends.cause (hI : Identity w) {canonical : TurnRecord} (h : Ends w turnId canonical e) :
    (∃ i worker, w.workers.lookup i = some worker ∧ worker.turnId = turnId ∧
        worker.phase.canonical = some canonical) ∨
      (∃ c cancellation, w.cancellations.lookup c = some cancellation ∧
        cancellation.turnId = turnId ∧ cancellation.phase.canonical = some canonical) ∨
      (canonical ∈ w.closer.canonicals ∧ w.state.stateClosed = true) := by
  cases h with
  | @final i worker hworker hphase hid =>
    have hcanonical : worker.phase.canonical = some canonical := by
      rw [hphase]
      rfl
    have hrecord := hI.workerRecord i worker hworker canonical
      (WorkerPhase.record_of_canonical hcanonical)
    exact .inl ⟨i, worker, hworker, hrecord.1 ▸ hid, hcanonical⟩
  | @stateOnly i worker hworker hphase hid =>
    refine .inl ⟨i, worker, hworker, hid, ?_⟩
    rw [hphase]
    rfl
  | @cancelled c cancellation hcancel hphase hid =>
    have hcanonical : cancellation.phase.canonical = some canonical := by
      rw [hphase]
      rfl
    have hrecord := hI.cancelRecord c cancellation hcancel canonical
      (CancelPhase.record_of_canonical hcanonical)
    exact .inr (.inl ⟨c, cancellation, hcancel, hrecord.1 ▸ hid, hcanonical⟩)
  | closed hcloser =>
    refine .inr (.inr ⟨?_, hI.closer ?_⟩)
    · rw [hcloser]
      exact mem_cons_self
    · rw [hcloser]
      exact Closer.noConfusion

theorem resumeWaitingTurn_status_ne (slot : TurnSlot) :
    (resumeWaitingTurn slot).status ≠ .turnWaitingForInput := by
  unfold resumeWaitingTurn
  split
  · intro h
    cases h
  · next hne => exact hne

theorem resumeWaitingTurn_key (slot : TurnSlot) :
    (resumeWaitingTurn slot).turnSlotRecord.key = slot.turnSlotRecord.key ∧
      (resumeWaitingTurn slot).turnSlotRecord.turnRecordId = slot.turnSlotRecord.turnRecordId ∧
      (resumeWaitingTurn slot).turnSlotSpec = slot.turnSlotSpec ∧
      (resumeWaitingTurn slot).turnSlotCancelling = slot.turnSlotCancelling ∧
      (resumeWaitingTurn slot).active = slot.active := by
  unfold resumeWaitingTurn
  split
  · next hwaiting =>
    refine ⟨rfl, rfl, rfl, rfl, ?_⟩
    show true = isActiveStatus slot.status
    rw [hwaiting]
    rfl
  · exact ⟨rfl, rfl, rfl, rfl, rfl⟩

variable {slot slot' : TurnSlot}

/-- A step keeps the identifier and the session of a slot. -/
theorem SlotStep.record (hI : Identity w) (h : SlotStep config w e w' turnId slot slot')
    (hrecord : RecordOf w turnId slot.turnSlotRecord)
    (hspec : slot.turnSlotSpec.key = slot.turnSlotRecord.key) :
    RecordOf w turnId slot'.turnSlotRecord ∧ slot'.turnSlotSpec.key = slot'.turnSlotRecord.key := by
  cases h with
  | ended hends =>
    have hcanonical := (hends.spec hI).1
    refine ⟨hcanonical, ?_⟩
    have hkey := hrecord.2
    rw [hcanonical.2] at hkey
    show slot.turnSlotSpec.key = _
    rw [hspec, ← Option.some.inj hkey]
    rfl
  | resumed =>
    obtain ⟨hkey, hid, hkept, -⟩ := resumeWaitingTurn_key slot
    unfold RecordOf
    rw [hkey, hid, hkept]
    exact ⟨hrecord, hspec⟩
  | _ => exact ⟨hrecord, hspec⟩

/-- No step puts a slot back into the queue. -/
theorem SlotStep.queued (hI : Identity w) (h : SlotStep config w e w' turnId slot slot')
    (hqueued : slot'.status = .turnQueued) : slot.status = .turnQueued := by
  cases h with
  | reserved => cases hqueued
  | ended hends =>
    have hend := (hends.spec hI).2
    have hstatus : (endedSlot _ slot).turnSlotRecord.turnRecordStatus = _ := hqueued
    change isActiveStatus (endedSlot _ slot).turnSlotRecord.turnRecordStatus = false at hend
    rw [hstatus] at hend
    cases hend
  | waits => cases hqueued
  | resumed =>
    unfold resumeWaitingTurn at hqueued
    split at hqueued
    · cases hqueued
    · exact hqueued
  | _ => exact hqueued

/-- No step makes a slot active again. -/
theorem SlotStep.active (hI : Identity w) (h : SlotStep config w e w' turnId slot slot')
    (hactive : slot'.active = true) : slot.active = true := by
  cases h with
  | reserved hreservable =>
    show isActiveStatus slot.status = true
    rw [hreservable.queued]
    rfl
  | ended hends =>
    have hend := (hends.spec hI).2
    rw [show (endedSlot _ slot).active = _ from hend] at hactive
    cases hactive
  | waits _ _ _ _ hold => exact hold
  | resumed =>
    rw [(resumeWaitingTurn_key slot).2.2.2.2] at hactive
    exact hactive
  | _ => exact hactive

theorem SlotStep.waiting (hI : Identity w) (h : SlotStep config w e w' turnId slot slot')
    (hwaiting : slot'.status = .turnWaitingForInput) :
    slot.status = .turnWaitingForInput ∨ turnId ∈ w.runnerStarts := by
  cases h with
  | reserved => cases hwaiting
  | ended hends =>
    have hend := (hends.spec hI).2
    have hstatus : (endedSlot _ slot).turnSlotRecord.turnRecordStatus = _ := hwaiting
    change isActiveStatus (endedSlot _ slot).turnSlotRecord.turnRecordStatus = false at hend
    rw [hstatus] at hend
    cases hend
  | waits _ hwaiter _ hturn => exact .inr (hturn ▸ (hI.waiter _ _ hwaiter).2)
  | resumed => exact absurd hwaiting (resumeWaitingTurn_status_ne slot)
  | _ => exact .inl hwaiting

/-! ### The identifiers stay right -/

section Fields

variable (hI : Identity w) (hfresh : FreshAdmission w e) (h : Change config persistence w e w')
include hI hfresh h

section

variable (hslot : w'.state.stateTurns.lookup turnId = some slot)
include hslot

theorem slot_identity :
    RecordOf w' turnId slot.turnSlotRecord ∧ slot.turnSlotSpec.key = slot.turnSlotRecord.key := by
  cases slot_origin hI.keyed h hslot with
  | kept hold hstep =>
    obtain ⟨hrecord, hspec⟩ := hI.slot turnId _ hold
    obtain ⟨hrecord', hspec'⟩ := hstep.record hI hrecord hspec
    exact ⟨hrecord'.mono hfresh h, hspec'⟩
  | admitted _ hid hadmitted _ hadmission =>
    refine ⟨⟨hid, ?_⟩, hadmission.key.symm⟩
    rw [hadmitted, lookup_insert_self]
    rfl

theorem queued_identity (hqueued : slot.status = .turnQueued) :
    w'.state.stateWorkers.lookup turnId = none ∧ turnId ∉ w'.runnerStarts := by
  cases slot_origin hI.keyed h hslot with
  | kept hold hstep =>
    have hbefore := hstep.queued hI hqueued
    obtain ⟨hworker, hstart⟩ := hI.queued turnId _ hold hbefore
    refine ⟨unregistered_of_change h hworker ?_, not_started_of_change hI h hworker hstart⟩
    intro spec hdispatcher
    exact (hI.reserved turnId spec hdispatcher).2.2.2 _ hold hbefore
  | admitted hevent =>
    -- nothing is known of a turn that is admitted only now
    have hnew := hfresh turnId hevent
    have hworker : w.state.stateWorkers.lookup turnId = none := by
      cases hlookup : w.state.stateWorkers.lookup turnId with
      | none => rfl
      | some i =>
        obtain ⟨worker, hworker, hturn⟩ := hI.registered turnId i hlookup
        have hadmitted := (hI.worker i worker hworker).2
        rw [hturn, hnew] at hadmitted
        cases hadmitted
    have hstart : turnId ∉ w.runnerStarts := by
      intro hmem
      obtain ⟨key, hadmitted⟩ := hI.started turnId hmem
      rw [hnew] at hadmitted
      cases hadmitted
    refine ⟨unregistered_of_change h hworker ?_, not_started_of_change hI h hworker hstart⟩
    intro spec hdispatcher
    have hadmitted := (hI.reserved turnId spec hdispatcher).1
    rw [hnew] at hadmitted
    cases hadmitted

omit hfresh in
theorem waiting_identity
    (hwaiting : slot.status = .turnWaitingForInput) : turnId ∈ w'.runnerStarts := by
  cases slot_origin hI.keyed h hslot with
  | kept hold hstep =>
    rcases hstep.waiting hI hwaiting with hbefore | hstart
    · exact starts_mono h (hI.waiting turnId _ hold hbefore)
    · exact starts_mono h hstart
  | admitted _ _ _ _ hadmission =>
    have hstatus := hadmission.queued.symm.trans hwaiting
    cases hstatus

end

theorem reserved_identity {spec : TurnSpec} (hdispatcher : w'.dispatcher = .reserved turnId spec) :
    w'.admitted.lookup turnId = some spec.key ∧ w'.state.stateWorkers.lookup turnId = none ∧
      turnId ∉ w'.runnerStarts ∧
      ∀ slot, w'.state.stateTurns.lookup turnId = some slot → slot.status ≠ .turnQueued := by
  rcases dispatcher_change h hdispatcher with hbefore | ⟨-, slot, tenantId, hreservable, hspec, hstate⟩
  · obtain ⟨hadmitted, hworker, hstart, hqueued⟩ := hI.reserved turnId spec hbefore
    refine ⟨admitted_mono hfresh h hadmitted, ?_, not_started_of_change hI h hworker hstart, ?_⟩
    · cases registration_change h with
      | same hstate =>
        rw [hstate]
        exact hworker
      | spawned _ _ _ _ _ hchoosing =>
        rw [hchoosing] at hdispatcher
        cases hdispatcher
      | @finished i worker _ _ _ hstate =>
        rw [hstate]
        show (w.state.stateWorkers.delete worker.turnId).lookup turnId = none
        rw [lookup_delete]
        split
        · rfl
        · exact hworker
    · intro slot hslot hstatus
      cases slot_origin hI.keyed h hslot with
      | kept hold hstep => exact hqueued _ hold (hstep.queued hI hstatus)
      | admitted hevent =>
        rw [hfresh turnId hevent] at hadmitted
        cases hadmitted
  · obtain ⟨hrecord, hkey⟩ := hI.slot turnId slot hreservable.found
    obtain ⟨hworker, hstart⟩ := hI.queued turnId slot hreservable.found hreservable.queued
    refine ⟨?_, ?_, not_started_of_change hI h hworker hstart, ?_⟩
    · refine admitted_mono hfresh h ?_
      rw [hrecord.2, hspec, hkey]
    · rw [hstate]
      exact hworker
    · intro slot' hslot' hstatus
      rw [hstate] at hslot'
      have hlookup : (w.state.stateTurns.insert turnId (reservedSlot slot)).lookup turnId
        = some slot' := hslot'
      rw [lookup_insert_self] at hlookup
      cases hlookup
      cases hstatus

variable {worker : Worker}

omit hfresh in
/-- The worker that a step leaves is registered. -/
theorem registered_of_worker (hworker : w'.workers.lookup i = some worker) :
    w'.state.stateWorkers.lookup worker.turnId = some i := by
  have hbefore : (∃ old, w.workers.lookup i = some old ∧ old.turnId = worker.turnId) ∨
      w'.state = registerWorker worker.turnId i w.state := by
    cases worker_change h hworker with
    | same hold => exact .inl ⟨worker, hold, rfl⟩
    | spawned _ _ _ hstate _ => exact .inr hstate
    | moved hold => exact .inl ⟨_, hold, rfl⟩
  rcases hbefore with ⟨old, hold, hturn⟩ | hstate
  · have hregistered := (hI.worker i old hold).1
    rw [hturn] at hregistered
    cases registration_change h with
    | same hstate =>
      rw [hstate]
      exact hregistered
    | @spawned j other spec hdispatcher _ _ _ hstate =>
      have hne : worker.turnId ≠ other := by
        rintro heq
        rw [heq, (hI.reserved other spec hdispatcher).2.1] at hregistered
        cases hregistered
      rw [hstate]
      show (w.state.stateWorkers.insert other j).lookup worker.turnId = some i
      rw [lookup_insert_of_ne hne]
      exact hregistered
    | @finished j finished hfinished _ hworkers hstate =>
      have hne : i ≠ j := by
        rintro rfl
        rw [hworkers, FinMap.lookup_delete_self] at hworker
        cases hworker
      have hturns : worker.turnId ≠ finished.turnId := by
        intro heq
        exact hne (hI.worker_unique hold hfinished (hturn.trans heq))
      rw [hstate]
      show (w.state.stateWorkers.delete finished.turnId).lookup worker.turnId = some i
      rw [FinMap.lookup_delete_of_ne hturns]
      exact hregistered
  · rw [hstate]
    exact lookup_insert_self

theorem worker_identity (hworker : w'.workers.lookup i = some worker) :
    w'.state.stateWorkers.lookup worker.turnId = some i ∧
      w'.admitted.lookup worker.turnId = some worker.spec.key := by
  refine ⟨registered_of_worker hI h hworker, admitted_mono hfresh h ?_⟩
  cases worker_change h hworker with
  | same hold => exact (hI.worker i worker hold).2
  | spawned hdispatcher => exact (hI.reserved _ _ hdispatcher).1
  | moved hold => exact (hI.worker i _ hold).2

omit hfresh in
theorem registered_identity (hregistered : w'.state.stateWorkers.lookup turnId = some i) :
    ∃ worker, w'.workers.lookup i = some worker ∧ worker.turnId = turnId := by
  cases registration_change h with
  | same hstate hworkers =>
    rw [hstate] at hregistered
    obtain ⟨worker, hworker, hturn⟩ := hI.registered turnId i hregistered
    obtain ⟨phase, hkept⟩ := hworkers i worker hworker
    exact ⟨_, hkept, hturn⟩
  | @spawned j other spec hdispatcher hnew _ hworkers hstate =>
    rw [hstate] at hregistered
    have hlookup : (w.state.stateWorkers.insert other j).lookup turnId = some i := hregistered
    rw [lookup_insert] at hlookup
    rw [hworkers]
    split at hlookup
    · next heq =>
      cases hlookup
      exact ⟨_, lookup_insert_self, heq.symm⟩
    · obtain ⟨worker, hworker, hturn⟩ := hI.registered turnId i hlookup
      have hne : i ≠ j := by
        have hbound := hI.threads i worker hworker
        omega
      rw [lookup_insert_of_ne hne]
      exact ⟨worker, hworker, hturn⟩
  | @finished j finished hfinished _ hworkers hstate =>
    rw [hstate] at hregistered
    have hlookup : (w.state.stateWorkers.delete finished.turnId).lookup turnId = some i :=
      hregistered
    rw [lookup_delete] at hlookup
    split at hlookup
    · cases hlookup
    · next hne =>
      obtain ⟨worker, hworker, hturn⟩ := hI.registered turnId i hlookup
      have hother : i ≠ j := by
        rintro rfl
        rw [hfinished] at hworker
        cases hworker
        exact hne hturn.symm
      rw [hworkers, FinMap.lookup_delete_of_ne hother]
      exact ⟨worker, hworker, hturn⟩

omit hfresh in
theorem unstarted_identity (hworker : w'.workers.lookup i = some worker)
    (hphase : worker.phase.unstarted = true) : worker.turnId ∉ w'.runnerStarts := by
  rcases starts_change h with hsame | ⟨j, starter, -, hstarter, -, hstarts, hworkers, -⟩
  · rw [hsame]
    cases worker_change h hworker with
    | same hold => exact hI.unstarted i worker hold hphase
    | spawned hdispatcher => exact (hI.reserved _ _ hdispatcher).2.2.1
    | @moved old phase hold hstep =>
      refine hI.unstarted i old hold ?_
      cases hstep with
      | moves hmoves =>
        cases hmoves with
        | enter hbefore | lookUp hbefore | started hbefore =>
          rw [hbefore]
          rfl
        | _ => cases hphase
      | marked hbefore =>
        rw [hbefore]
        rfl
      | commits hcommits =>
        generalize old.phase = before at hcommits
        cases hcommits <;> cases hphase
      | _ => cases hphase
  · rw [hworkers, lookup_insert] at hworker
    split at hworker
    · cases hworker
      cases hphase
    · next hne =>
      rw [hstarts, mem_append, mem_singleton]
      rintro (hmem | hturn)
      · exact hI.unstarted i worker hworker hphase hmem
      · exact hne (hI.worker_unique hworker hstarter hturn)

omit hfresh in
theorem startedOnce_identity : w'.runnerStarts.Nodup := by
  rcases starts_change h with hsame | ⟨i, worker, -, hworker, hphase, hstarts, -⟩
  · rw [hsame]
    exact hI.startedOnce
  · have hnew := hI.unstarted i worker hworker (by rw [hphase]; rfl)
    rw [hstarts]
    exact nodup_append.mpr ⟨hI.startedOnce, nodup_singleton _, fun a ha b hb => by
      rw [mem_singleton] at hb
      rintro rfl
      exact hnew (hb ▸ ha)⟩

theorem started_identity (hstart : turnId ∈ w'.runnerStarts) :
    ∃ key, w'.admitted.lookup turnId = some key := by
  rcases starts_change h with hsame | ⟨i, worker, -, hworker, -, hstarts, -⟩
  · rw [hsame] at hstart
    obtain ⟨key, hkey⟩ := hI.started turnId hstart
    exact ⟨key, admitted_mono hfresh h hkey⟩
  · rw [hstarts, mem_append, mem_singleton] at hstart
    rcases hstart with hmem | rfl
    · obtain ⟨key, hkey⟩ := hI.started turnId hmem
      exact ⟨key, admitted_mono hfresh h hkey⟩
    · exact ⟨_, admitted_mono hfresh h (hI.worker i worker hworker).2⟩

variable {record : TurnRecord}

/-- The record that a worker holds, and that it is the last one where it is about to be written. -/
theorem workerRecord_identity (hworker : w'.workers.lookup i = some worker)
    (hphase : worker.phase.record = some record) :
    RecordOf w' worker.turnId record ∧
      (worker.phase.canonical = some record → record.active = false) := by
  suffices hw : RecordOf w worker.turnId record ∧
      (worker.phase.canonical = some record → record.active = false) from
    ⟨hw.1.mono hfresh h, hw.2⟩
  cases worker_change h hworker with
  | same hold =>
    exact ⟨hI.workerRecord i worker hold record hphase, hI.workerEnd i worker hold record⟩
  | spawned => cases hphase
  | @moved old phase hold hstep =>
    cases hstep with
    | moves hmoves =>
      cases hmoves with
      | readFinal _ hread =>
        obtain ⟨slot, hslot, hrecord, -⟩ := finalizable_eq_some hread
        cases hphase
        refine ⟨hrecord ▸ (hI.slot _ _ hslot).1, fun hend => ?_⟩
        cases hend
      | readStateOnly _ hread =>
        obtain ⟨slot, hslot, hrecord, -⟩ := stateOnlyFinalizable_eq_some hread
        cases hphase
        refine ⟨hrecord ▸ (hI.slot _ _ hslot).1, fun hend => ?_⟩
        cases hend
      | _ => cases hphase
    | @commits before canonical _ _ _ persistence hcommits hanswer =>
      have hend := persistence.endOf hanswer
      have hbefore : RecordOf w old.turnId before := by
        refine hI.workerRecord i old hold before ?_
        generalize old.phase = held at hcommits
        cases hcommits <;> rfl
      have hrecord : record = canonical := by
        generalize old.phase = held at hcommits
        cases hcommits <;> cases hphase <;> rfl
      subst hrecord
      exact ⟨⟨hend.turnId.trans hbefore.1, hend.key ▸ hbefore.2⟩, fun _ => hend.terminal⟩
    | _ => cases hphase

theorem cancelRecord_identity {c : ℕ} {cancellation : Cancellation}
    (hcancel : w'.cancellations.lookup c = some cancellation)
    (hphase : cancellation.phase.record = some record) :
    RecordOf w' cancellation.turnId record ∧
      (cancellation.phase.canonical = some record → record.active = false) := by
  suffices hw : RecordOf w cancellation.turnId record ∧
      (cancellation.phase.canonical = some record → record.active = false) from
    ⟨hw.1.mono hfresh h, hw.2⟩
  cases cancellation_change h hcancel with
  | same hold =>
    exact ⟨hI.cancelRecord c cancellation hold record hphase,
      hI.cancelEnd c cancellation hold record⟩
  | begins hclaiming =>
    rw [hclaiming] at hphase
    cases hphase
  | claims _ _ hclaim =>
    obtain ⟨slot, hslot, -, -, hrecord, -⟩ := claimCancellation_eq_claimed hclaim
    cases hphase
    refine ⟨hrecord ▸ (hI.slot _ _ hslot).1, fun hend => ?_⟩
    cases hend
  | @moved old phase hold hmoves =>
    have hbefore : old.phase.record = some record ∧ phase.canonical = none := by
      generalize old.phase = before at hmoves
      cases hmoves with
      | @joined _ _ doomed => cases doomed <;> exact ⟨hphase, rfl⟩
      | _ => exact ⟨hphase, rfl⟩
    refine ⟨hI.cancelRecord c old hold record hbefore.1, fun hend => ?_⟩
    rw [show phase.canonical = _ from hend] at hbefore
    cases hbefore.2
  | @commits old before canonical _ persistence hold hpersisting hanswer =>
    have hend := persistence.endOf hanswer
    have hbefore := hI.cancelRecord c old hold before (by rw [hpersisting]; rfl)
    cases hphase
    exact ⟨⟨hend.turnId.trans hbefore.1, hend.key ▸ hbefore.2⟩, fun _ => hend.terminal⟩

omit hfresh in
theorem cancelTarget_identity {c : ℕ} {cancellation : Cancellation}
    (hcancel : w'.cancellations.lookup c = some cancellation)
    (htarget : cancellation.phase.target = some i) : i < w'.workerThreads ∧
      ∀ worker, w'.workers.lookup i = some worker → worker.turnId = cancellation.turnId := by
  have hbefore : i < w.workerThreads ∧
      ∀ worker, w.workers.lookup i = some worker → worker.turnId = cancellation.turnId := by
    cases cancellation_change h hcancel with
    | same hold => exact hI.cancelTarget c cancellation hold i htarget
    | begins hclaiming =>
      rw [hclaiming] at htarget
      cases htarget
    | claims _ _ hclaim =>
      obtain ⟨slot, -, -, -, -, hworker, -⟩ := claimCancellation_eq_claimed hclaim
      have hregistered := hworker.symm.trans htarget
      obtain ⟨worker, hlookup, hturn⟩ := hI.registered _ i hregistered
      refine ⟨hI.threads i worker hlookup, fun other hother => ?_⟩
      rw [hlookup] at hother
      cases hother
      exact hturn
    | @moved old phase hold hmoves =>
      have hheld : old.phase.target = some i := by
        generalize old.phase = before at hmoves
        cases hmoves with
        | @joined _ _ doomed => cases doomed <;> cases htarget
        | interruptedStop | interruptedPersist => cases htarget
        | endHook => exact htarget
      exact hI.cancelTarget c old hold i hheld
    | commits => cases htarget
  refine ⟨Nat.lt_of_lt_of_le hbefore.1 (workerThreads_mono h), fun worker hworker => ?_⟩
  cases worker_change h hworker with
  | same hold => exact hbefore.2 worker hold
  | spawned _ hnew => exact absurd hnew (Nat.ne_of_lt hbefore.1)
  | @moved old _ hold => exact hbefore.2 old hold

omit hfresh in
theorem threads_identity (hworker : w'.workers.lookup i = some worker) : i < w'.workerThreads := by
  cases worker_change h hworker with
  | same hold => exact Nat.lt_of_lt_of_le (hI.threads i worker hold) (workerThreads_mono h)
  | spawned _ _ _ _ hthreads =>
    rw [hthreads]
    exact Nat.lt_succ_self i
  | moved hold => exact Nat.lt_of_lt_of_le (hI.threads i _ hold) (workerThreads_mono h)

theorem closerRecord_identity (hrecord : record ∈ w'.closer.records) :
    RecordOf w' record.turnRecordId record := by
  suffices hw : RecordOf w record.turnRecordId record from hw.mono hfresh h
  have hold : record ∈ w.closer.records → RecordOf w record.turnRecordId record :=
    hI.closerRecord record
  cases h with
  | close =>
    have hmem : record ∈ (w.state.stateTurns.elems.filter fun slot => slot.active).map
      (·.turnSlotRecord) := hrecord
    rw [List.mem_map] at hmem
    obtain ⟨slot, hslot, rfl⟩ := hmem
    obtain ⟨turnId, hlookup⟩ := mem_elems.mp (mem_filter.mp hslot).1
    have hof := (hI.slot turnId slot hlookup).1
    rw [hof.1]
    exact hof
  | closerMoves hmoves =>
    cases hmoves with
    | reply hcloser =>
      rw [hcloser] at hold
      exact hold hrecord
    | @stopped _ _ records hcloser =>
      rw [hcloser] at hold
      have hmem : record ∈ records ++ [] := hrecord
      rw [List.append_nil] at hmem
      exact hold hmem
    | persisted hcloser =>
      rw [hcloser] at hold
      exact hold hrecord
    | ends => cases hrecord
  | @closePersist _ pending finished before canonical _ hcloser hmem hanswer =>
    rw [hcloser] at hold
    have hend := persistence.endOf hanswer
    have hall : record ∈ pending.erase before ++ (finished ++ [canonical]) := hrecord
    rw [mem_append, mem_append, mem_singleton] at hall
    rcases hall with hpending | hfinished | rfl
    · exact hold (mem_append_left _ (mem_of_mem_erase hpending))
    · exact hold (mem_append_right _ hfinished)
    · have hbefore : RecordOf w before.turnRecordId before :=
        hI.closerRecord before (by rw [hcloser]; exact mem_append_left _ hmem)
      refine ⟨rfl, ?_⟩
      rw [hend.turnId, hbefore.2, hend.key]
  | closePublish hcloser =>
    rw [hcloser] at hold
    exact hold (mem_cons_of_mem _ hrecord)
  | input hinput => cases hinput <;> exact hold hrecord
  | _ => exact hold hrecord

omit hfresh in
theorem closerEnd_identity {canonical : TurnRecord} (hrecord : canonical ∈ w'.closer.canonicals) :
    canonical.active = false := by
  have hold : canonical ∈ w.closer.canonicals → canonical.active = false := hI.closerEnd canonical
  cases h with
  | close => cases hrecord
  | closerMoves hmoves =>
    cases hmoves with
    | reply | stopped | ends => cases hrecord
    | persisted hcloser =>
      rw [hcloser] at hold
      exact hold hrecord
  | @closePersist _ pending finished before new _ hcloser hmem hanswer =>
    rw [hcloser] at hold
    have hall : canonical ∈ finished ++ [new] := hrecord
    rw [mem_append, mem_singleton] at hall
    rcases hall with hfinished | rfl
    · exact hold hfinished
    · exact (persistence.endOf hanswer).terminal
  | closePublish hcloser =>
    rw [hcloser] at hold
    exact hold (mem_cons_of_mem _ hrecord)
  | input hinput => cases hinput <;> exact hold hrecord
  | _ => exact hold hrecord

omit hfresh in
theorem closer_identity (hcloser : w'.closer ≠ .absent) : w'.state.stateClosed = true := by
  rcases closer_change h hcloser with hbefore | hclosed
  · exact stateClosed_mono h (hI.closer hbefore)
  · exact hclosed

omit hfresh in
theorem waiter_identity {q : RequestId} {waiter : Waiter}
    (hwaiter : w'.waiters.lookup q = some waiter) :
    waiter.request.humanRequestId = q ∧ waiter.request.humanRequestTurnId ∈ w'.runnerStarts := by
  rcases waiter_of_change h hwaiter with ⟨phase, hold⟩ | ⟨-, -, hid, key, hcontrol⟩
  · obtain ⟨hid, hstart⟩ := hI.waiter q _ hold
    exact ⟨hid, starts_mono h hstart⟩
  · refine ⟨hid, starts_mono h ?_⟩
    unfold World.control at hcontrol
    split at hcontrol
    · next hstart => exact hstart
    · cases hcontrol

omit hfresh in
theorem pending_identity {q : RequestId} {request : HumanRequest}
    (hpending : w'.state.statePendingInputs.lookup q = some request) :
    ∃ waiter, w'.waiters.lookup q = some waiter ∧ waiter.request = request := by
  have hbefore : ∃ waiter, w.waiters.lookup q = some waiter ∧ waiter.request = request := by
    rcases pending_of_change h hpending with hold | ⟨p, waiter, -, hwaiter, -, hrequest, hid⟩
    · exact hI.pending q request hold
    · have hp := (hI.waiter p waiter hwaiter).1
      rw [hrequest, hid] at hp
      rw [hp]
      exact ⟨waiter, hwaiter, hrequest⟩
  obtain ⟨waiter, hwaiter, hrequest⟩ := hbefore
  obtain ⟨phase, hkept⟩ := waiter_kept h hwaiter
  exact ⟨_, hkept, hrequest⟩

/-- **The identifiers stay right.** -/
theorem identity_step : Identity w' where
  slot _ _ := slot_identity hI hfresh h
  worker _ _ := worker_identity hI hfresh h
  threads _ _ := threads_identity hI h
  registered _ _ := registered_identity hI h
  reserved _ _ := reserved_identity hI hfresh h
  queued _ _ := queued_identity hI hfresh h
  waiting _ _ := waiting_identity hI h
  unstarted _ _ := unstarted_identity hI h
  started _ := started_identity hI hfresh h
  startedOnce := startedOnce_identity hI h
  workerRecord _ _ hworker _ hphase := (workerRecord_identity hI hfresh h hworker hphase).1
  workerEnd _ _ hworker _ hphase :=
    (workerRecord_identity hI hfresh h hworker (WorkerPhase.record_of_canonical hphase)).2 hphase
  cancelRecord _ _ hcancel _ hphase := (cancelRecord_identity hI hfresh h hcancel hphase).1
  cancelTarget _ _ hcancel _ htarget := cancelTarget_identity hI h hcancel htarget
  cancelEnd _ _ hcancel _ hphase :=
    (cancelRecord_identity hI hfresh h hcancel (CancelPhase.record_of_canonical hphase)).2 hphase
  closerRecord _ := closerRecord_identity hI hfresh h
  closerEnd _ := closerEnd_identity hI h
  closer := closer_identity hI h
  waiter _ _ := waiter_identity hI h
  pending _ _ := pending_identity hI h

end Fields

/-! ### Turns that run on -/

theorem activeTurn_of_change (hI : Identity w) (h : Change config persistence w e w')
    (hactive : ActiveTurn w' turnId) : ActiveTurn w turnId ∨ e.admittedTurn = some turnId := by
  obtain ⟨slot, hslot, hactive⟩ := hactive
  cases slot_origin hI.keyed h hslot with
  | kept hold hstep => exact .inl ⟨_, hold, hstep.active hI hactive⟩
  | admitted hevent => exact .inr hevent

/-- The claim that is released opens the turn again. -/
def Reopens (w : World) (turnId : TurnId) (c : ℕ) : Prop :=
  ∃ cancellation slot, w.cancellations.lookup c = some cancellation ∧
    w.state.stateTurns.lookup turnId = some slot ∧
    cancellation.phase = .releasing slot.turnSlotRecord ∧ slot.turnSlotCancelling = true ∧
    slot.active = true

theorem openTurn_of_change (hI : Identity w) (h : Change config persistence w e w')
    (hopen : OpenTurn w' turnId) : OpenTurn w turnId ∨ e.admittedTurn = some turnId ∨
      ∃ c slot tasks, e = .releaseClaim c ∧ Reopens w turnId c ∧
        w.state.stateTurns.lookup turnId = some slot ∧ w' = { w with
          state := { releaseCancellationClaim slot.turnSlotRecord w.state with
            stateCancellationTasks := tasks }
          cancellations := w.cancellations.delete c } := by
  obtain ⟨slot', hslot, hactive, hunclaimed⟩ := hopen
  cases slot_origin hI.keyed h hslot with
  | kept hold hstep =>
    have hbefore := hstep.active hI hactive
    cases hstep with
    | reserved hreservable =>
      exact .inl ⟨_, hold, hbefore, hunclaimed⟩
    | ended hends =>
      rw [show (endedSlot _ _).active = _ from (hends.spec hI).2] at hactive
      cases hactive
    | claimed => cases hunclaimed
    | @released c cancellation hevent hcancel hphase hclaimed hafter =>
      obtain ⟨tasks, hafter⟩ := hafter
      exact .inr (.inr ⟨c, _, tasks, hevent,
        ⟨cancellation, _, hcancel, hold, hphase, hclaimed, hbefore⟩, hold, hafter⟩)
    | resumed =>
      rw [(resumeWaitingTurn_key _).2.2.2.1] at hunclaimed
      exact .inl ⟨_, hold, hbefore, hunclaimed⟩
    | _ => exact .inl ⟨_, hold, hbefore, hunclaimed⟩
  | admitted hevent => exact .inr (.inl hevent)

end Step

/-- **A turn is run once, by a worker of its own.**  As long as no identifier is admitted twice, no
runner starts twice, two workers have different turns, a cancellation stops the worker of its own
turn only, and a request for input comes from a turn whose runner was started. -/
theorem turns_run_once (config : SupervisorConfig) (persistence : TurnPersistence) {w : World}
    (h : ReachableBy (World.step config persistence) FreshAdmission .init w) :
    w.runnerStarts.Nodup ∧
    (∀ i j worker other, w.workers.lookup i = some worker → w.workers.lookup j = some other →
      worker.turnId = other.turnId → i = j) ∧
    (∀ c cancellation i worker, w.cancellations.lookup c = some cancellation →
      cancellation.phase.target = some i → w.workers.lookup i = some worker →
      worker.turnId = cancellation.turnId) ∧
    ∀ q request, w.state.statePendingInputs.lookup q = some request →
      request.humanRequestId = q ∧ request.humanRequestTurnId ∈ w.runnerStarts := by
  have hI : Identity w := h.invariant init_identity fun _ _ _ hI hfresh hstep =>
    identity_step hI hfresh (step_change hstep)
  refine ⟨hI.startedOnce, fun i j worker other hi hj hturn => ?_,
    fun c cancellation i worker hcancel htarget => (hI.cancelTarget c cancellation hcancel i htarget).2
      worker, fun q request hpending => ?_⟩
  · have hregistered := (hI.worker i worker hi).1
    rw [hturn, (hI.worker j other hj).1] at hregistered
    exact (Option.some.inj hregistered).symm
  · obtain ⟨waiter, hwaiter, rfl⟩ := hI.pending q request hpending
    exact hI.waiter q waiter hwaiter

theorem turns_run_once_in_exampleStart :
    ∃ w : World, ReachableBy (World.step exampleTurnConfig.toSupervisorConfig
        inMemoryTurnPersistence) FreshAdmission .init w ∧
      w.runnerStarts = [1] ∧ w.runnerStarts.Nodup := by
  have hrun : (Machine.run (guarded FreshAdmission
      (World.step exampleTurnConfig.toSupervisorConfig inMemoryTurnPersistence)) .init
      exampleStart).any (fun w => w.runnerStarts == [1]) = true := by
    decide +kernel
  obtain ⟨w, hw, hstarts⟩ := exists_reachableBy_of_run hrun
  exact ⟨w, hw, beq_iff_eq.mp hstarts, (turns_run_once _ _ hw).1⟩

end Server

end HaskellAgent
