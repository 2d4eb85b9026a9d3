import HaskellAgent.Server.Supervisor.State

/-!
# What each transaction of the supervisor does
-/

open List

namespace HaskellAgent

namespace Server

variable {config : SupervisorConfig} {state state' : SupervisorState} {turnId : TurnId}
  {slot : TurnSlot}

theorem sessionBusy_eq_false {key : SessionKey} {turns : FinMap TurnId TurnSlot}
    (h : sessionBusy key turns = false) (hslot : turns.lookup turnId = some slot)
    (hkey : slot.turnSlotRecord.key = key) : slot.active = false := by
  unfold sessionBusy at h
  rw [List.any_eq_false] at h
  have hfree := h slot (FinMap.mem_elems.mpr ⟨turnId, hslot⟩)
  rw [decide_eq_true_eq] at hfree
  by_contra hactive
  rw [Bool.not_eq_false] at hactive
  exact hfree ⟨hkey, hactive⟩

/-! ### Admission -/

/-- Slots are kept under the identifiers of their records. -/
def KeyedByTurn (turns : FinMap TurnId TurnSlot) : Prop :=
  ∀ turnId slot, turns.lookup turnId = some slot → slot.turnSlotRecord.turnRecordId = turnId

section Prune

variable {turns : FinMap TurnId TurnSlot}

theorem mem_of_lookup_pruneTerminalTurns (hkeyed : KeyedByTurn turns)
    (h : (pruneTerminalTurns turns).lookup turnId = some slot) :
    turns.lookup turnId = some slot := by
  unfold pruneTerminalTurns at h
  have hmem := FinMap.mem_of_lookup_ofList h
  rw [List.mem_map] at hmem
  obtain ⟨kept, hkept, heq⟩ := hmem
  cases heq
  have helem : slot ∈ turns.elems := by
    rcases mem_append.mp hkept with hactive | hterminal
    · exact (mem_filter.mp hactive).1
    · have hsorted := mem_of_mem_take hterminal
      rw [mem_insertionSort] at hsorted
      exact (mem_filter.mp hsorted).1
  obtain ⟨other, hother⟩ := FinMap.mem_elems.mp helem
  rw [hkeyed other slot hother]
  exact hother

theorem lookup_pruneTerminalTurns_of_active (hkeyed : KeyedByTurn turns)
    (h : turns.lookup turnId = some slot) (hactive : slot.active = true) :
    (pruneTerminalTurns turns).lookup turnId = some slot := by
  -- every entry of the list that is made is an entry of the map
  have hentry : ∀ other, (turnId, other) ∈ ((turns.elems.filter fun slot => slot.active) ++
      (((turns.elems.filter fun slot => !slot.active).insertionSort fun a b =>
        b.turnSlotRecord.turnRecordCreatedAt ≤ a.turnSlotRecord.turnRecordCreatedAt).take
          maximumRetainedTerminalTurns)).map
        (fun slot => (slot.turnSlotRecord.turnRecordId, slot)) → other = slot := by
    intro other hmem
    rw [List.mem_map] at hmem
    obtain ⟨kept, hkept, heq⟩ := hmem
    cases heq
    have helem : other ∈ turns.elems := by
      rcases mem_append.mp hkept with hkept | hkept
      · exact (mem_filter.mp hkept).1
      · have hsorted := mem_of_mem_take hkept
        rw [mem_insertionSort] at hsorted
        exact (mem_filter.mp hsorted).1
    obtain ⟨key, hkey⟩ := FinMap.mem_elems.mp helem
    have hid := hkeyed key other hkey
    rw [← hid, h] at hkey
    exact (Option.some.inj hkey).symm
  unfold pruneTerminalTurns
  refine FinMap.lookup_ofList_of_unique hentry (List.mem_map.mpr ⟨slot, ?_, ?_⟩)
  · exact mem_append_left _
      (mem_filter.mpr ⟨FinMap.mem_elems.mpr ⟨turnId, h⟩, hactive⟩)
  · rw [hkeyed turnId slot h]

end Prune

/-- What holds where a turn is admitted. -/
structure Admission (config : SupervisorConfig) (reservationHeld : Bool) (spec : TurnSpec)
    (record admitted : TurnRecord) (state : SupervisorState) : Prop where
  turnId : admitted.turnRecordId = record.turnRecordId
  key : admitted.key = spec.key
  queued : admitted.turnRecordStatus = .turnQueued
  tenant : admitted.turnRecordBoundary = spec.turnSpecBoundary
  opened : state.stateClosed = false
  held : reservationHeld = true ↔ spec.key ∈ state.stateActiveSessions
  idle : sessionBusy spec.key state.stateTurns = false
  room : state.stateQueue.length < config.supervisorMaxQueuedTurns
  bytes : queuedAttachmentBytes state.stateTurns + turnAttachmentBytes spec ≤
    maximumQueuedAttachmentBytes
  tenantRoom : queuedForTenant spec.turnSpecBoundary.accessTenantId state.stateTurns <
    config.supervisorMaxQueuedTurnsPerTenant
  tenantBytes : queuedAttachmentBytesForTenant spec.turnSpecBoundary.accessTenantId
    state.stateTurns + turnAttachmentBytes spec ≤ maximumQueuedAttachmentBytesPerTenant

def admittedSlot (spec : TurnSpec) (admitted : TurnRecord) : TurnSlot where
  turnSlotSpec := spec
  turnSlotRecord := admitted
  turnSlotCancelling := false

variable {spec : TurnSpec}

theorem enqueueTurnRecord_eq_ok {reservationHeld : Bool} {record admitted : TurnRecord}
    (h : enqueueTurnRecord config reservationHeld spec record state = .ok (admitted, state')) :
    Admission config reservationHeld spec record admitted state ∧
      state' = appendTurnEvent .turnQueued admitted.turnRecordId
        { state with
          stateQueue := state.stateQueue ++ [admitted.turnRecordId]
          stateTurns := (pruneTerminalTurns state.stateTurns).insert admitted.turnRecordId
            (admittedSlot spec admitted) } := by
  unfold enqueueTurnRecord at h
  split at h
  · cases h
  next hsession =>
  split at h
  · cases h
  split at h
  · cases h
  next hboundary =>
  split at h
  · cases h
  next hstatus =>
  rw [Decidable.not_not] at hsession hboundary hstatus
  dsimp only at h
  split at h
  · cases h
  next hopen =>
  split at h
  · cases h
  next hheld =>
  split at h
  · cases h
  next hbusy =>
  split at h
  · cases h
  next hroom =>
  split at h
  · cases h
  next htenant =>
  cases Except.ok.inj h
  rw [Bool.not_eq_true] at hopen
  simp only [Bool.and_eq_true, Bool.not_eq_true', decide_eq_false_iff_not, not_and,
    Decidable.not_not] at hheld
  simp only [Bool.or_eq_true, Bool.and_eq_true, Bool.not_eq_true', decide_eq_true_eq, not_or,
    not_and, Bool.not_eq_true] at hbusy
  have hkey : record.key = spec.key := Prod.ext hboundary hsession
  refine ⟨⟨rfl, hkey, hstatus, hboundary, hopen, ⟨hheld, fun hmem => ?_⟩, hbusy.2, ?_, ?_, ?_, ?_⟩,
    rfl⟩
  · by_contra hfree
    rw [Bool.not_eq_true] at hfree
    exact hbusy.1 hfree hmem
  all_goals omega

/-! ### Scheduling -/

/-- The slot of a turn that has been reserved: its payload is dropped. -/
def reservedSlot (slot : TurnSlot) : TurnSlot :=
  { slot with
    turnSlotRecord := { slot.turnSlotRecord with turnRecordStatus := .turnRunning }
    turnSlotSpec :=
      { slot.turnSlotSpec with turnSpecPrompt := [], turnSpecImages := [], turnSpecFiles := [] } }

/-- What holds where a turn is reserved. -/
structure Reservable (config : SupervisorConfig) (turnId : TurnId) (slot : TurnSlot)
    (state : SupervisorState) : Prop where
  opened : state.stateClosed = false
  found : state.stateTurns.lookup turnId = some slot
  queued : slot.status = .turnQueued
  mem : turnId ∈ state.stateQueue
  free : slot.turnSlotRecord.key ∉ state.stateActiveSessions
  workers : state.stateWorkers.keys.length < config.supervisorMaxConcurrentTurns
  tenant : runningForTenant slot.turnSlotRecord.turnRecordBoundary.accessTenantId
    state.stateTurns state.stateWorkers < config.supervisorMaxConcurrentTurnsPerTenant

theorem pickRunnable_eq_some {remaining : List TurnId} {tenantId : Text}
    (h : pickRunnable config state = some (turnId, remaining, tenantId)) :
    (turnId, tenantId) ∈ eligibleTurns config state ∧
      remaining = state.stateQueue.filter (· ≠ turnId) := by
  unfold pickRunnable at h
  dsimp only at h
  generalize hcandidates : (eligibleTurns config state).filter _ ++ _ = candidates at h
  cases candidates with
  | nil => cases h
  | cons entry rest =>
    obtain ⟨first, firstTenant⟩ := entry
    cases h
    refine ⟨?_, rfl⟩
    have hmem : (turnId, tenantId) ∈ (turnId, tenantId) :: rest := mem_cons_self
    rw [← hcandidates] at hmem
    rcases mem_append.mp hmem with hpreferred | hfallback
    · exact (mem_filter.mp hpreferred).1
    · split at hfallback
      · exact hfallback
      · cases hfallback

theorem mem_eligibleTurns {tenantId : Text}
    (h : (turnId, tenantId) ∈ eligibleTurns config state) :
    turnId ∈ state.stateQueue ∧ ∃ slot, state.stateTurns.lookup turnId = some slot ∧
      tenantId = slot.turnSlotRecord.turnRecordBoundary.accessTenantId ∧
      slot.status = .turnQueued ∧ slot.turnSlotRecord.key ∉ state.stateActiveSessions ∧
      runningForTenant tenantId state.stateTurns state.stateWorkers <
        config.supervisorMaxConcurrentTurnsPerTenant := by
  unfold eligibleTurns at h
  rw [mem_filterMap] at h
  obtain ⟨candidate, hmem, hcandidate⟩ := h
  split at hcandidate
  · cases hcandidate
  · next slot hslot =>
    dsimp only at hcandidate
    split at hcandidate
    · next heligible =>
      cases hcandidate
      exact ⟨hmem, slot, hslot, rfl, heligible⟩
    · cases hcandidate

theorem reserveRunnable_eq_reserved
    (h : reserveRunnable config state = .reserved turnId spec state') :
    ∃ slot tenantId, Reservable config turnId slot state ∧ spec = slot.turnSlotSpec ∧
      state' = { state with
        stateQueue := state.stateQueue.filter (· ≠ turnId)
        stateTurns := state.stateTurns.insert turnId (reservedSlot slot)
        stateActiveSessions := insert slot.turnSlotRecord.key state.stateActiveSessions
        stateLastScheduledTenant := some tenantId } := by
  unfold reserveRunnable at h
  split at h
  · cases h
  next hopen =>
  split at h
  · cases h
  next hworkers =>
  split at h
  · cases h
  next picked remaining tenantId hpick =>
  obtain ⟨heligible, hremaining⟩ := pickRunnable_eq_some hpick
  obtain ⟨hmem, slot, hslot, htenant, hqueued, hfree, hrunning⟩ := mem_eligibleTurns heligible
  split at h
  · cases h
  next slot' hslot' =>
  rw [hslot] at hslot'
  cases hslot'
  cases h
  rw [Bool.not_eq_true] at hopen
  rw [htenant] at hrunning
  subst hremaining
  exact ⟨slot, tenantId, ⟨hopen, hslot, hqueued, hmem, hfree, by omega, hrunning⟩, rfl, rfl⟩

/-! ### Workers -/

theorem acceptsWorker_eq_true :
    acceptsWorker turnId spec state = true ↔ ∃ slot, state.stateTurns.lookup turnId = some slot ∧
      state.stateClosed = false ∧ slot.status = .turnRunning ∧
      slot.turnSlotRecord.key = spec.key ∧ spec.key ∈ state.stateActiveSessions := by
  unfold acceptsWorker
  cases hslot : state.stateTurns.lookup turnId with
  | none => simp
  | some slot => simp [and_assoc]

def startedSlot (now : UTCTime) (slot : TurnSlot) : TurnSlot :=
  { slot with
    turnSlotRecord := { slot.turnSlotRecord with turnRecordStartedAt := some now } }

theorem markTurnStarted_eq_some {now : UTCTime}
    (h : markTurnStarted now turnId spec state = some state') :
    ∃ slot, state.stateTurns.lookup turnId = some slot ∧ slot.status = .turnRunning ∧
      slot.turnSlotCancelling = false ∧ slot.turnSlotRecord.key = spec.key ∧
      state' = appendTurnEvent .turnStarted turnId
        { state with stateTurns := state.stateTurns.insert turnId (startedSlot now slot) } := by
  unfold markTurnStarted at h
  split at h
  · cases h
  · next slot hslot =>
    split at h
    · next hstarts =>
      cases Option.some.inj h
      exact ⟨slot, hslot, hstarts.1, hstarts.2.1, hstarts.2.2, rfl⟩
    · cases h

/-! ### The end of a turn -/

variable {record : TurnRecord}

theorem finalizable_eq_some (h : finalizable turnId spec state = some record) :
    ∃ slot, state.stateTurns.lookup turnId = some slot ∧ record = slot.turnSlotRecord ∧
      slot.turnSlotCancelling = false ∧ slot.active = true := by
  unfold finalizable at h
  split at h
  · cases h
  · next slot hslot =>
    split at h
    · next hfinal =>
      cases h
      exact ⟨slot, hslot, rfl, hfinal.2.1, hfinal.2.2⟩
    · cases h

theorem finalizable_eq_none (h : finalizable turnId spec state = none)
    (hslot : state.stateTurns.lookup turnId = some slot) (hkey : slot.turnSlotRecord.key = spec.key)
    (hactive : slot.active = true) : slot.turnSlotCancelling = true := by
  unfold finalizable at h
  rw [hslot] at h
  by_contra hclaimed
  rw [Bool.not_eq_true] at hclaimed
  dsimp only at h
  rw [if_pos ⟨congrArg Prod.fst hkey, hclaimed, hactive⟩] at h
  cases h

theorem stateOnlyFinalizable_eq_some
    (h : stateOnlyFinalizable turnId state = some record) :
    ∃ slot, state.stateTurns.lookup turnId = some slot ∧ record = slot.turnSlotRecord ∧
      slot.turnSlotCancelling = false := by
  unfold stateOnlyFinalizable at h
  split at h
  · cases h
  · next slot hslot =>
    split at h
    · cases h
    · next hclaimed =>
      cases h
      rw [Bool.not_eq_true] at hclaimed
      exact ⟨slot, hslot, rfl, hclaimed⟩

theorem stateOnlyFinalizable_eq_none (h : stateOnlyFinalizable turnId state = none)
    (hslot : state.stateTurns.lookup turnId = some slot) : slot.turnSlotCancelling = true := by
  unfold stateOnlyFinalizable at h
  rw [hslot] at h
  by_contra hclaimed
  rw [Bool.not_eq_true] at hclaimed
  dsimp only at h
  rw [hclaimed] at h
  cases h

/-- The slot of a turn that has ended. -/
def endedSlot (canonical : TurnRecord) (slot : TurnSlot) : TurnSlot :=
  { slot with turnSlotRecord := canonical, turnSlotCancelling := false }

/-- The publication changes the slot. -/
def publishes (canonical : TurnRecord) (state : SupervisorState) : Bool :=
  (state.stateTurns.lookup canonical.turnRecordId).any fun slot =>
    decide (slot.turnSlotRecord ≠ canonical)

theorem publishTerminalRecord_of_publishes {canonical : TurnRecord}
    (h : publishes canonical state = true) :
    ∃ slot, state.stateTurns.lookup canonical.turnRecordId = some slot ∧
      slot.turnSlotRecord ≠ canonical ∧
      publishTerminalRecord canonical state =
        appendTurnEvent (terminalEventType canonical.turnRecordStatus) canonical.turnRecordId
          { state with
            stateTurns := state.stateTurns.insert canonical.turnRecordId
              (endedSlot canonical slot)
            stateActiveSessions := state.stateActiveSessions.erase canonical.key } := by
  unfold publishes at h
  rw [Option.any_eq_true] at h
  obtain ⟨slot, hslot, hne⟩ := h
  rw [decide_eq_true_eq] at hne
  refine ⟨slot, hslot, hne, ?_⟩
  unfold publishTerminalRecord
  rw [hslot]
  dsimp only
  rw [if_neg hne]
  rfl

theorem publishTerminalRecord_of_not_publishes {canonical : TurnRecord}
    (h : publishes canonical state = false) : publishTerminalRecord canonical state = state := by
  unfold publishes at h
  unfold publishTerminalRecord
  cases hslot : state.stateTurns.lookup canonical.turnRecordId with
  | none => rfl
  | some slot =>
    rw [hslot] at h
    have heq : slot.turnSlotRecord = canonical := by
      by_contra hne
      rw [Option.any_some, decide_eq_false_iff_not] at h
      exact h hne
    dsimp only
    rw [if_pos heq]

/-! ### Cancellations -/

def ofTurn (turnId : TurnId) (request : HumanRequest) : Bool :=
  decide (request.humanRequestTurnId = turnId)

theorem claimCancellation_eq_claimed {boundary : AccessBoundary}
    {worker : Option ℕ} {inputs : List RequestId}
    (h : claimCancellation boundary turnId state = .claimed record worker inputs state') :
    ∃ slot, state.stateTurns.lookup turnId = some slot ∧ slot.turnSlotCancelling = false ∧
      slot.active = true ∧ record = slot.turnSlotRecord ∧
      worker = state.stateWorkers.lookup turnId ∧
      inputs = (state.statePendingInputs.filter (ofTurn turnId)).keys ∧
      state' = { state with
        stateQueue := state.stateQueue.filter (· ≠ turnId)
        stateTurns := state.stateTurns.insert turnId { slot with turnSlotCancelling := true }
        statePendingInputs :=
          state.statePendingInputs.filter fun request => !ofTurn turnId request } := by
  unfold claimCancellation at h
  split at h
  · cases h
  next slot hslot =>
  split at h
  · cases h
  split at h
  · cases h
  next hclaimed =>
  split at h
  next hactive =>
    cases h
    rw [Bool.not_eq_true] at hclaimed
    exact ⟨slot, hslot, hclaimed, hactive, rfl, rfl, rfl, rfl⟩
  · cases h

def unclaimedSlot (record : TurnRecord) (slot : TurnSlot) : TurnSlot :=
  if slot.turnSlotCancelling ∧ slot.turnSlotRecord = record then
    { slot with turnSlotCancelling := false }
  else slot

/-- The slot of a turn when the supervisor closes. -/
def closedSlot (slot : TurnSlot) : TurnSlot :=
  if slot.active then { slot with turnSlotCancelling := true } else slot

/-! ### Human input -/

def waitingSlot (slot : TurnSlot) : TurnSlot :=
  { slot with
    turnSlotRecord := { slot.turnSlotRecord with turnRecordStatus := .turnWaitingForInput } }

theorem installInput_eq_ok {request : HumanRequest} (h : installInput request state = .ok state') :
    ∃ slot, state.stateTurns.lookup request.humanRequestTurnId = some slot ∧
      slot.turnSlotCancelling = false ∧ slot.active = true ∧
      state' = appendTurnEvent (.requestCreated request.humanRequestId) request.humanRequestTurnId
        { state with
          statePendingInputs := state.statePendingInputs.insert request.humanRequestId request
          stateTurns := state.stateTurns.insert request.humanRequestTurnId (waitingSlot slot) } := by
  unfold installInput at h
  split at h
  · cases h
  next slot hslot =>
  split at h
  · cases h
  next hopen =>
  cases h
  rw [Bool.or_eq_true, not_or, Bool.not_eq_true, Bool.not_eq_true', Bool.not_eq_false] at hopen
  exact ⟨slot, hslot, hopen.1, hopen.2, rfl⟩

theorem completePendingInput_eq_some {requestId : RequestId} {request : HumanRequest}
    (h : completePendingInput requestId state = some (request, state')) :
    state.statePendingInputs.lookup requestId = some request ∧
      state' = appendTurnEvent (.requestResolved requestId) request.humanRequestTurnId
        { state with
          statePendingInputs := state.statePendingInputs.delete requestId
          stateTurns := state.stateTurns.adjust resumeWaitingTurn request.humanRequestTurnId } := by
  unfold completePendingInput at h
  split at h
  · cases h
  · next pending hpending =>
    cases h
    exact ⟨hpending, rfl⟩

end Server

end HaskellAgent
