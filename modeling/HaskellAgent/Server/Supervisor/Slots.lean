import HaskellAgent.Server.Supervisor.Change
import HaskellAgent.Server.Supervisor.Transactions

/-!
# How the slot of a turn changes

A step admits a turn, drops slots of turns that are over, or moves the slot of a turn on.
-/

open FinMap

namespace HaskellAgent
namespace Server

/-- The steps that write the last record of a turn. -/
inductive Ends (w : World) (turnId : TurnId) (canonical : TurnRecord) : SupervisorEvent → Prop
  | final {i : ℕ} {worker : Worker} (hworker : w.workers.lookup i = some worker)
      (hphase : worker.phase = .publishing canonical) (hid : canonical.turnRecordId = turnId) :
      Ends w turnId canonical (.publishFinal i)
  | stateOnly {i : ℕ} {worker : Worker} (hworker : w.workers.lookup i = some worker)
      (hphase : worker.phase = .failingWrite canonical) (hid : worker.turnId = turnId) :
      Ends w turnId canonical (.writeStateOnly i)
  | cancelled {c : ℕ} {cancellation : Cancellation}
      (hcancel : w.cancellations.lookup c = some cancellation)
      (hphase : cancellation.phase = .publishing canonical)
      (hid : canonical.turnRecordId = turnId) : Ends w turnId canonical (.publishCancel c)
  | closed {canonicals : List TurnRecord} (hcloser : w.closer = .publishing (canonical :: canonicals))
      (hid : canonical.turnRecordId = turnId) : Ends w turnId canonical .closePublish

/-- What a step makes of the slot of a turn that is kept. -/
inductive SlotStep (config : SupervisorConfig) (w : World) (e : SupervisorEvent) (w' : World)
    (turnId : TurnId) (slot : TurnSlot) : TurnSlot → Prop
  | same : SlotStep config w e w' turnId slot slot
  | reserved (h : Reservable config turnId slot w.state)
      (hgone : turnId ∉ w'.state.stateQueue)
      (hdispatcher : w'.dispatcher = .reserved turnId slot.turnSlotSpec)
      (hsession : slot.turnSlotRecord.key ∈ w'.state.stateActiveSessions)
      (hopened : w'.state.stateClosed = false) :
      SlotStep config w e w' turnId slot (reservedSlot slot)
  | started {i : ℕ} {worker : Worker} {now : UTCTime} (hworker : w.workers.lookup i = some worker)
      (hturn : worker.turnId = turnId) (hphase : worker.phase = .marking)
      (hrunning : slot.status = .turnRunning) (hunclaimed : slot.turnSlotCancelling = false) :
      SlotStep config w e w' turnId slot (startedSlot now slot)
  | ended {canonical : TurnRecord} (hends : Ends w turnId canonical e) :
      SlotStep config w e w' turnId slot (endedSlot canonical slot)
  | claimed (hactive : slot.active = true) (hgone : turnId ∉ w'.state.stateQueue) :
      SlotStep config w e w' turnId slot { slot with turnSlotCancelling := true }
  | released {c : ℕ} {cancellation : Cancellation} (hevent : e = .releaseClaim c)
      (hcancel : w.cancellations.lookup c = some cancellation)
      (hphase : cancellation.phase = .releasing slot.turnSlotRecord)
      (hclaimed : slot.turnSlotCancelling = true)
      (hafter : ∃ tasks, w' = { w with
        state := { releaseCancellationClaim slot.turnSlotRecord w.state with
          stateCancellationTasks := tasks }
        cancellations := w.cancellations.delete c }) :
      SlotStep config w e w' turnId slot { slot with turnSlotCancelling := false }
  | waits {q : RequestId} {waiter : Waiter} (hevent : e = .install q)
      (hwaiter : w.waiters.lookup q = some waiter)
      (hphase : waiter.phase = .installing)
      (hturn : waiter.request.humanRequestTurnId = turnId)
      (hactive : slot.active = true) (hunclaimed : slot.turnSlotCancelling = false) :
      SlotStep config w e w' turnId slot (waitingSlot slot)
  | resumed {q : RequestId} {request : HumanRequest}
      (hpending : w.state.statePendingInputs.lookup q = some request)
      (hturn : request.humanRequestTurnId = turnId) :
      SlotStep config w e w' turnId slot (resumeWaitingTurn slot)

/-- What a step that admits no turn makes of what is kept of a turn. -/
inductive SlotMove (config : SupervisorConfig) (w : World) (e : SupervisorEvent) (w' : World)
    (turnId : TurnId) : Option TurnSlot → Option TurnSlot → Prop
  | absent : SlotMove config w e w' turnId none none
  | moved {slot slot' : TurnSlot} (hstep : SlotStep config w e w' turnId slot slot') :
      SlotMove config w e w' turnId (some slot) (some slot')

/-- What a step makes of the slots. -/
inductive TurnsChange (config : SupervisorConfig) (w : World) (e : SupervisorEvent) (w' : World) :
    Prop
  | admits {reservationHeld : Bool} {spec : TurnSpec} {record admitted : TurnRecord}
      (hevent : e.admittedTurn = some admitted.turnRecordId)
      (h : Admission config reservationHeld spec record admitted w.state)
      (hadmitted : w'.admitted = w.admitted.insert admitted.turnRecordId admitted.key)
      (hqueue : w'.state.stateQueue = w.state.stateQueue ++ [admitted.turnRecordId])
      (hturns : w'.state.stateTurns = (pruneTerminalTurns w.state.stateTurns).insert
        admitted.turnRecordId (admittedSlot spec admitted))
  | moves (hmoves : ∀ turnId, SlotMove config w e w' turnId (w.state.stateTurns.lookup turnId)
      (w'.state.stateTurns.lookup turnId))

/-- Where a slot comes from. -/
inductive SlotOrigin (config : SupervisorConfig) (w : World) (e : SupervisorEvent) (w' : World)
    (turnId : TurnId) : TurnSlot → Prop
  | kept {slot slot' : TurnSlot} (hslot : w.state.stateTurns.lookup turnId = some slot)
      (hstep : SlotStep config w e w' turnId slot slot') : SlotOrigin config w e w' turnId slot'
  | admitted {reservationHeld : Bool} {spec : TurnSpec} {record admitted : TurnRecord}
      (hevent : e.admittedTurn = some turnId) (hid : admitted.turnRecordId = turnId)
      (hadmitted : w'.admitted = w.admitted.insert turnId admitted.key)
      (hqueue : turnId ∈ w'.state.stateQueue)
      (h : Admission config reservationHeld spec record admitted w.state) :
      SlotOrigin config w e w' turnId (admittedSlot spec admitted)

/-- What becomes of a slot. -/
inductive SlotFate (config : SupervisorConfig) (w : World) (e : SupervisorEvent) (w' : World)
    (turnId : TurnId) (slot : TurnSlot) : Prop
  | kept {slot' : TurnSlot} (hslot : w'.state.stateTurns.lookup turnId = some slot')
      (hstep : SlotStep config w e w' turnId slot slot')
  | replaced (hevent : e.admittedTurn = some turnId)
  | pruned {other : TurnId} (hevent : e.admittedTurn = some other) (hended : slot.active = false)
      (hslot : w'.state.stateTurns.lookup turnId = none)

section Change

variable {config : SupervisorConfig} {persistence : TurnPersistence} {w w' : World}
  {e : SupervisorEvent} {turnId : TurnId}

theorem not_mem_filter_ne {queue : List TurnId} : turnId ∉ queue.filter (· ≠ turnId) := by
  intro hmem
  have hne := (List.mem_filter.mp hmem).2
  rw [decide_eq_true_eq] at hne
  exact hne rfl

theorem SlotMove.refl (old : Option TurnSlot) : SlotMove config w e w' turnId old old := by
  cases old with
  | none => exact .absent
  | some slot => exact .moved .same

theorem SlotMove.insert {turns : FinMap TurnId TurnSlot} {key : TurnId} {slot slot' : TurnSlot}
    (hslot : turns.lookup key = some slot) (hstep : SlotStep config w e w' key slot slot') :
    SlotMove config w e w' turnId (turns.lookup turnId) ((turns.insert key slot').lookup turnId) := by
  rw [lookup_insert]
  split
  · next heq =>
    subst heq
    rw [hslot]
    exact .moved hstep
  · exact .refl _

theorem SlotMove.adjust {turns : FinMap TurnId TurnSlot} {key : TurnId}
    {f : TurnSlot → TurnSlot} (hstep : ∀ slot, turns.lookup key = some slot →
      SlotStep config w e w' key slot (f slot)) :
    SlotMove config w e w' turnId (turns.lookup turnId) ((turns.adjust f key).lookup turnId) := by
  rw [lookup_adjust]
  split
  · next heq =>
    subst heq
    cases hslot : turns.lookup turnId with
    | none => exact .absent
    | some slot => exact .moved (hstep slot hslot)
  · exact .refl _

theorem SlotMove.publish {canonical : TurnRecord}
    (hends : Ends w canonical.turnRecordId canonical e) :
    SlotMove config w e w' turnId (w.state.stateTurns.lookup turnId)
      ((publishTerminalRecord canonical w.state).stateTurns.lookup turnId) := by
  cases hpublishes : publishes canonical w.state with
  | true =>
    obtain ⟨slot, hslot, -, heq⟩ := publishTerminalRecord_of_publishes hpublishes
    rw [heq]
    exact .insert hslot (.ended hends)
  | false =>
    rw [publishTerminalRecord_of_not_publishes hpublishes]
    exact .refl _

theorem SlotMove.complete {q : RequestId} {request : HumanRequest} {state : SupervisorState}
    (h : completePendingInput q w.state = some (request, state)) :
    SlotMove config w e w' turnId (w.state.stateTurns.lookup turnId)
      (state.stateTurns.lookup turnId) := by
  obtain ⟨hpending, rfl⟩ := completePendingInput_eq_some h
  exact .adjust fun slot _ => .resumed hpending rfl

theorem SlotMove.input (h : InputStep persistence w e w') :
    SlotMove config w e w' turnId (w.state.stateTurns.lookup turnId)
      (w'.state.stateTurns.lookup turnId) := by
  cases h with
  | installed hwaiter hphase hinstall =>
    obtain ⟨slot, hslot, hunclaimed, hactive, rfl⟩ := installInput_eq_ok hinstall
    exact .insert hslot (.waits rfl hwaiter hphase rfl hactive hunclaimed)
  | completed _ _ hcomplete | acceptedLocally _ _ _ hcomplete => exact .complete hcomplete
  | _ => exact .refl _

/-- **A step admits a turn, or moves every slot in one of these ways.** -/
theorem turns_change (h : Change config persistence w e w') : TurnsChange config w e w' := by
  cases h with
  | admits hevent _ hadmitted =>
    obtain ⟨hadmission, rfl⟩ := enqueueTurnRecord_eq_ok hadmitted
    rw [← hadmission.turnId] at hevent
    exact .admits hevent hadmission rfl rfl rfl
  | dispatch _ hreserve =>
    obtain ⟨slot, tenantId, hreservable, rfl, rfl⟩ := reserveRunnable_eq_reserved hreserve
    exact .moves fun _ => .insert hreservable.found (.reserved hreservable not_mem_filter_ne rfl
      (Finset.mem_insert_self _ _) hreservable.opened)
  | markStarted hworker hphase hmark =>
    obtain ⟨slot, hslot, hrunning, hunclaimed, -, rfl⟩ := markTurnStarted_eq_some hmark
    exact .moves fun _ => .insert hslot (.started hworker rfl hphase hrunning hunclaimed)
  | publishFinal hworker hphase => exact .moves fun _ => .publish (.final hworker hphase rfl)
  | writeStateOnly hworker hphase =>
    exact .moves fun _ => .adjust fun slot _ => .ended (.stateOnly hworker hphase rfl)
  | claim _ _ hclaim =>
    obtain ⟨slot, hslot, -, hactive, -, -, -, rfl⟩ := claimCancellation_eq_claimed hclaim
    exact .moves fun _ => .insert hslot (.claimed hactive not_mem_filter_ne)
  | publishCancel hcancel hphase => exact .moves fun _ => .publish (.cancelled hcancel hphase rfl)
  | releaseClaim hcancel hphase =>
    refine .moves fun _ => .adjust fun slot _ => ?_
    split
    · next heq =>
      obtain ⟨hclaimed, rfl⟩ := heq
      exact .released rfl hcancel hphase hclaimed ⟨_, rfl⟩
    · exact .same
  | input hinput => exact .moves fun _ => .input hinput
  | close =>
    refine .moves fun turnId => ?_
    show SlotMove config w _ _ turnId _ ((w.state.stateTurns.map _).lookup turnId)
    rw [lookup_map]
    cases w.state.stateTurns.lookup turnId with
    | none => exact .absent
    | some slot =>
      refine .moved ?_
      show SlotStep config w _ _ turnId slot (closedSlot slot)
      unfold closedSlot
      split
      · next hactive => exact .claimed hactive List.not_mem_nil
      · exact .same
  | closePublish hcloser => exact .moves fun _ => .publish (.closed hcloser rfl)
  | _ => exact .moves fun _ => .refl _

/-- A slot is kept from before, or of the turn that is admitted. -/
theorem slot_origin (hkeyed : KeyedByTurn w.state.stateTurns)
    (h : Change config persistence w e w') {slot : TurnSlot}
    (hslot : w'.state.stateTurns.lookup turnId = some slot) :
    SlotOrigin config w e w' turnId slot := by
  cases turns_change h with
  | @admits _ spec _ admitted hevent hadmission hadmitted hqueue hturns =>
    rw [hturns, lookup_insert] at hslot
    split at hslot
    · next hid =>
      cases hslot
      subst hid
      refine .admitted hevent rfl hadmitted ?_ hadmission
      rw [hqueue]
      exact List.mem_append_right _ List.mem_cons_self
    · exact .kept (mem_of_lookup_pruneTerminalTurns hkeyed hslot) .same
  | moves hmoves =>
    have hmove := hmoves turnId
    rw [hslot] at hmove
    generalize hold : w.state.stateTurns.lookup turnId = old at hmove
    cases hmove with
    | moved hstep => exact .kept hold hstep

/-- A slot is moved on, unless it is dropped when another turn is admitted. -/
theorem slot_fate (hkeyed : KeyedByTurn w.state.stateTurns)
    (h : Change config persistence w e w') {slot : TurnSlot}
    (hslot : w.state.stateTurns.lookup turnId = some slot) :
    SlotFate config w e w' turnId slot := by
  cases turns_change h with
  | @admits _ spec _ admitted hevent hadmission hadmitted hqueue hturns =>
    by_cases hid : turnId = admitted.turnRecordId
    · exact .replaced (hid ▸ hevent)
    · have hlookup : w'.state.stateTurns.lookup turnId
          = (pruneTerminalTurns w.state.stateTurns).lookup turnId := by
        rw [hturns, lookup_insert_of_ne hid]
      cases hkept : (pruneTerminalTurns w.state.stateTurns).lookup turnId with
      | none =>
        refine .pruned hevent ?_ (hlookup.trans hkept)
        by_contra hactive
        rw [Bool.not_eq_false] at hactive
        rw [lookup_pruneTerminalTurns_of_active hkeyed hslot hactive] at hkept
        cases hkept
      | some kept =>
        have hold := mem_of_lookup_pruneTerminalTurns hkeyed hkept
        rw [hslot] at hold
        cases hold
        exact .kept (hlookup.trans hkept) .same
  | moves hmoves =>
    have hmove := hmoves turnId
    rw [hslot] at hmove
    generalize hnew : w'.state.stateTurns.lookup turnId = new at hmove
    cases hmove with
    | moved hstep => exact .kept hnew hstep

end Change

end Server
end HaskellAgent
