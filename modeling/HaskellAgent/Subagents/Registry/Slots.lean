import HaskellAgent.Subagents.Registry.Moves

/-!
# Slot accounting

Pending, running and interrupting agents hold a slot, and `registryLiveCount` counts them.  A slot
is taken and given back in the same transaction that writes the phase, so the count is exact as long
as the records that hold a slot are those the registry knows.  Two transactions can break that,
because they address records by their id: an admission under an id that is in use, and a rollback
that finds another record under the id of its own.

`stopSubagentRegistry` sets the count to zero and leaves the phases alone.  What does not depend on
the count holds of runs with it as well, so the invariant takes `counting` as a parameter.
-/

open List Option Function KeyedList Machine

namespace HaskellAgent

open Registry

/-! ### Accounts -/

namespace Registry

/-- The registered records that hold a slot. -/
def slotCount (reg : Registry) : ℕ :=
  reg.registryAgents.countP fun record => phaseHoldsSlot (reg.recordPhase record)

/-- The records with slots are registered, and counted. -/
structure Accounts (counting : Prop) (reg : Registry) : Prop where
  ids : KeyedList.DistinctKeys (·.recordId) reg.registryAgents
  owned : ∀ record, phaseHoldsSlot (reg.recordPhase record) → record ∈ reg.registryAgents
  live : counting → reg.registryLiveCount = reg.slotCount
  clamped : counting → reg.clamped = false
  admitted : ∀ admission ∈ reg.admissions, admission.1 < admission.2

variable {counting : Prop} {reg reg' : Registry} {record : SubagentRecord} {phase : SubagentPhase}

/-- Writing one phase changes the count by the slots it takes and gives back. -/
theorem slotCount_setPhase (hids : KeyedList.DistinctKeys (·.recordId) reg.registryAgents)
    (hmem : record ∈ reg.registryAgents ∨
      phaseHoldsSlot phase = phaseHoldsSlot (reg.recordPhase record))
    (hphase : reg'.recordPhase = Function.update reg.recordPhase record phase)
    (hagents : reg'.registryAgents = reg.registryAgents) :
    reg'.slotCount + (if phaseHoldsSlot (reg.recordPhase record) then 1 else 0)
      = reg.slotCount + (if phaseHoldsSlot phase then 1 else 0) := by
  have hself : phaseHoldsSlot (reg'.recordPhase record) = phaseHoldsSlot phase := by
    rw [hphase, update_self]
  have hother : ∀ r, r ≠ record →
      phaseHoldsSlot (reg'.recordPhase r) = phaseHoldsSlot (reg.recordPhase r) := by
    intro r hr
    rw [hphase, update_of_ne hr]
  unfold slotCount
  rw [hagents]
  by_cases hrecord : record ∈ reg.registryAgents
  · have hchange := countP_change
      (p := fun r => phaseHoldsSlot (reg'.recordPhase r))
      (q := fun r => phaseHoldsSlot (reg.recordPhase r)) hids.nodup hrecord
      (fun r _ hr => hother r hr)
    simpa only [hself] using hchange
  -- an unregistered record is in no count, and its slot does not change either
  · have hsame : phaseHoldsSlot phase = phaseHoldsSlot (reg.recordPhase record) :=
      hmem.resolve_left hrecord
    have hcount : reg.registryAgents.countP (fun r => phaseHoldsSlot (reg'.recordPhase r))
        = reg.registryAgents.countP (fun r => phaseHoldsSlot (reg.recordPhase r)) := by
      refine countP_congr fun r hr => ?_
      rw [hother r (fun he => hrecord (he ▸ hr))]
    rw [hcount, hsame]

namespace Accounts

section

variable (h : Accounts counting reg)
include h

/-- A move that writes none of the accounts. -/
theorem of_eq (hphase : reg'.recordPhase = reg.recordPhase)
    (hagents : reg'.registryAgents = reg.registryAgents)
    (hlive : reg'.registryLiveCount = reg.registryLiveCount)
    (hclamped : reg'.clamped = reg.clamped) (hadmissions : reg'.admissions = reg.admissions) :
    Accounts counting reg' where
  ids := hagents ▸ h.ids
  owned := by
    intro r hr
    rw [hphase] at hr
    exact hagents ▸ h.owned r hr
  live := by
    intro hc
    rw [hlive, h.live hc, slotCount, slotCount, hphase, hagents]
  clamped := hclamped ▸ h.clamped
  admitted := hadmissions ▸ h.admitted

/-- A phase is written by a move that counts the slots it takes and gives back. -/
theorem of_setPhase (hphase : reg'.recordPhase = Function.update reg.recordPhase record phase)
    (hagents : reg'.registryAgents = reg.registryAgents)
    (hslot : phaseHoldsSlot phase → record ∈ reg.registryAgents)
    (hlive : counting → reg'.registryLiveCount
      + (if phaseHoldsSlot (reg.recordPhase record) then 1 else 0)
      = reg.registryLiveCount + (if phaseHoldsSlot phase then 1 else 0))
    (hclamped : counting → reg'.clamped = false)
    (hadmitted : ∀ admission ∈ reg'.admissions, admission.1 < admission.2) :
    Accounts counting reg' where
  ids := hagents ▸ h.ids
  owned := by
    intro r hr
    rw [hagents]
    rw [hphase] at hr
    by_cases hrecord : r = record
    · subst hrecord
      rw [update_self] at hr
      exact hslot hr
    · rw [update_of_ne hrecord] at hr
      exact h.owned r hr
  live := by
    intro hc
    have hmem : record ∈ reg.registryAgents ∨
        phaseHoldsSlot phase = phaseHoldsSlot (reg.recordPhase record) := by
      by_cases hrecord : record ∈ reg.registryAgents
      · exact .inl hrecord
      · have hold : phaseHoldsSlot (reg.recordPhase record) = false :=
          Bool.eq_false_iff.mpr (mt (h.owned record) hrecord)
        have hnew : phaseHoldsSlot phase = false := Bool.eq_false_iff.mpr (mt hslot hrecord)
        exact .inr (hnew.trans hold.symm)
    have hcount := slotCount_setPhase h.ids hmem hphase hagents
    have hbefore := h.live hc
    have hafter := hlive hc
    split_ifs at hcount hafter <;> omega
  clamped := hclamped
  admitted := hadmitted

/-- A phase is written that holds a slot where the one before did. -/
theorem move (hphase : reg'.recordPhase = Function.update reg.recordPhase record phase)
    (hagents : reg'.registryAgents = reg.registryAgents)
    (hsame : phaseHoldsSlot phase = phaseHoldsSlot (reg.recordPhase record))
    (hlive : reg'.registryLiveCount = reg.registryLiveCount)
    (hclamped : reg'.clamped = reg.clamped) (hadmissions : reg'.admissions = reg.admissions) :
    Accounts counting reg' := by
  refine h.of_setPhase hphase hagents ?_ ?_ (hclamped ▸ h.clamped) (hadmissions ▸ h.admitted)
  · intro hslot
    exact h.owned record (hsame ▸ hslot)
  · intro _
    rw [hlive, hsame]

/-- A slot that is held is counted. -/
theorem pos_of_slot (hc : counting)
    (hslot : phaseHoldsSlot (reg.recordPhase record)) : 0 < reg.registryLiveCount := by
  have hcount : 0 < reg.slotCount := countP_pos_iff.mpr ⟨record, h.owned record hslot, hslot⟩
  have hlive := h.live hc
  omega

/-- The clamp of `releaseSlot` does nothing. -/
theorem releaseSlot_exact (hc : counting) (record : SubagentRecord) :
    (reg.releaseSlot record).registryLiveCount
        + (if phaseHoldsSlot (reg.recordPhase record) then 1 else 0) = reg.registryLiveCount ∧
      (reg.releaseSlot record).clamped = false := by
  unfold releaseSlot
  cases hslot : phaseHoldsSlot (reg.recordPhase record) with
  | false => simp [h.clamped hc]
  | true =>
    -- this slot is counted, so the count does not go below zero
    have hpos := h.pos_of_slot hc hslot
    refine ⟨?_, ?_⟩
    · simp only [if_true]
      omega
    · simp only [h.clamped hc, Bool.true_and, Bool.false_or, decide_eq_false_iff_not]
      omega

/-- The slot is released together with the phase that held it. -/
theorem release (hphase : reg'.recordPhase = Function.update reg.recordPhase record phase)
    (hagents : reg'.registryAgents = reg.registryAgents) (hslot : phaseHoldsSlot phase = false)
    (hlive : reg'.registryLiveCount = (reg.releaseSlot record).registryLiveCount)
    (hclamped : reg'.clamped = (reg.releaseSlot record).clamped)
    (hadmissions : reg'.admissions = reg.admissions) : Accounts counting reg' := by
  refine h.of_setPhase hphase hagents ?_ ?_ ?_ (hadmissions ▸ h.admitted)
  · intro hs
    rw [hslot] at hs
    cases hs
  · intro hc
    rw [hlive, hslot, (h.releaseSlot_exact hc record).1]
    simp
  · intro hc
    rw [hclamped]
    exact (h.releaseSlot_exact hc record).2

/-- A registered record without a slot takes one below the limit. -/
theorem take (hmem : record ∈ reg.registryAgents)
    (hold : phaseHoldsSlot (reg.recordPhase record) = false)
    (hlimit : reg.registryLiveCount < reg.registryConfig.maxConcurrent) (work : Work) :
    Accounts counting (reg.takeSlot.setPhase record (.pending work)) := by
  refine h.of_setPhase rfl rfl (fun _ => hmem) ?_ h.clamped ?_
  · intro _
    rw [hold]
    simp [takeSlot, setPhase, phaseHoldsSlot]
  · intro admission hadmission
    rcases mem_cons.mp hadmission with rfl | hadmission
    · exact hlimit
    · exact h.admitted admission hadmission

/-- A new record enters under a new id. -/
theorem insert (hnew : ∀ r ∈ reg.registryAgents, r.recordId ≠ record.recordId)
    (hphase : reg'.recordPhase = Function.update reg.recordPhase record phase)
    (hagents : reg'.registryAgents = KeyedList.insert (·.recordId) record reg.registryAgents)
    (hlive : counting → reg'.registryLiveCount
      = reg.registryLiveCount + (if phaseHoldsSlot phase then 1 else 0))
    (hclamped : reg'.clamped = reg.clamped)
    (hadmitted : ∀ admission ∈ reg'.admissions, admission.1 < admission.2) :
    Accounts counting reg' where
  ids := by
    rw [hagents]
    exact h.ids.insert record
  owned := by
    intro r hr
    rw [hagents, mem_insert]
    by_cases hrecord : r = record
    · exact .inl hrecord
    · rw [hphase, update_of_ne hrecord] at hr
      have hmem := h.owned r hr
      exact .inr ⟨hmem, hnew r hmem⟩
  live := by
    intro hc
    have hmem : record ∉ reg.registryAgents := fun hm => hnew record hm rfl
    have hcount : reg'.slotCount = reg.slotCount + (if phaseHoldsSlot phase then 1 else 0) := by
      have hrest : reg.registryAgents.countP (fun r => phaseHoldsSlot (reg'.recordPhase r))
          = reg.slotCount := by
        refine countP_congr fun r hr => ?_
        rw [hphase, update_of_ne (fun he : r = record => hmem (he ▸ hr))]
      have hself : phaseHoldsSlot (reg'.recordPhase record) = phaseHoldsSlot phase := by
        rw [hphase, update_self]
      rw [slotCount, hagents, countP_insert hnew, hrest, hself]
    have hbefore := h.live hc
    have hafter := hlive hc
    split_ifs at hcount hafter <;> omega
  clamped := hclamped ▸ h.clamped
  admitted := hadmitted

end

end Accounts

/-- The id belongs to the record, or to none. -/
def OwnId (reg : Registry) (record : SubagentRecord) : Prop :=
  ∀ r ∈ reg.registryAgents, r.recordId = record.recordId → r = record

instance (reg : Registry) (record : SubagentRecord) : Decidable (reg.OwnId record) :=
  inferInstanceAs (Decidable (∀ r ∈ reg.registryAgents, r.recordId = record.recordId → r = record))

/-- Rolling back an admission under its own id. -/
theorem Accounts.rollbackAdmission (h : Accounts counting reg) (hown : reg.OwnId record) :
    Accounts counting (reg.rollbackAdmission record) where
  ids := h.ids.delete record.recordId
  owned := by
    intro r hr
    by_cases hrecord : r = record
    · subst hrecord
      simp [Registry.rollbackAdmission, setPhase, phaseHoldsSlot] at hr
    · have hslot : phaseHoldsSlot (reg.recordPhase r) := by
        simpa [Registry.rollbackAdmission, setPhase, releaseSlot, deleteOwnedPath,
          update_of_ne hrecord] using hr
      have hmem := h.owned r hslot
      exact mem_delete.mpr ⟨hmem, fun hid => hrecord (hown r hmem hid)⟩
  live := by
    intro hc
    have hrest : (KeyedList.delete (·.recordId) record.recordId reg.registryAgents).countP
        (fun r => phaseHoldsSlot ((reg.rollbackAdmission record).recordPhase r))
        = (KeyedList.delete (·.recordId) record.recordId reg.registryAgents).countP
          (fun r => phaseHoldsSlot (reg.recordPhase r)) := by
      refine countP_congr fun r hr => ?_
      have hrecord : r ≠ record := fun he => (mem_delete.mp hr).2 (he ▸ rfl)
      simp [Registry.rollbackAdmission, setPhase, releaseSlot, deleteOwnedPath,
        update_of_ne hrecord]
    have hdelete : (KeyedList.delete (·.recordId) record.recordId reg.registryAgents).countP
        (fun r => phaseHoldsSlot (reg.recordPhase r))
        + (if phaseHoldsSlot (reg.recordPhase record) then 1 else 0) = reg.slotCount := by
      by_cases hmem : record ∈ reg.registryAgents
      · exact countP_delete h.ids hmem
      -- nobody has the id, so nothing is deleted and no slot was held
      · have hall : KeyedList.delete (·.recordId) record.recordId reg.registryAgents
            = reg.registryAgents := by
          refine filter_eq_self.mpr fun r hr => ?_
          simpa using fun hid => hmem (hown r hr hid ▸ hr)
        have hold : phaseHoldsSlot (reg.recordPhase record) = false :=
          Bool.eq_false_iff.mpr (mt (h.owned record) hmem)
        rw [hall, hold]
        rfl
    have hexact := (h.releaseSlot_exact hc record).1
    have hlive := h.live hc
    have hafter : (reg.rollbackAdmission record).registryLiveCount
        = (reg.releaseSlot record).registryLiveCount := rfl
    have hcount : (reg.rollbackAdmission record).slotCount
        = (KeyedList.delete (·.recordId) record.recordId reg.registryAgents).countP
          (fun r => phaseHoldsSlot ((reg.rollbackAdmission record).recordPhase r)) := rfl
    rw [hafter, hcount, hrest]
    split_ifs at hdelete hexact <;> omega
  clamped := fun hc => (h.releaseSlot_exact hc record).2
  admitted := h.admitted

/-! ### The transactions keep the accounts -/

theorem takeStartedWork_accounts (h : Accounts counting reg) {taken : Option Work × Registry}
    (ht : reg.takeStartedWork record = some taken) : Accounts counting taken.2 := by
  obtain ⟨-, rfl⟩ | ⟨work, hphase, rfl⟩ := takeStartedWork_case ht
  · exact h
  · exact h.move rfl rfl (by rw [hphase]; rfl) rfl rfl rfl

theorem StepCase.accounts {status : SubagentStatus} {step : SupervisorStep}
    (hstep : StepCase reg record status step reg') (h : Accounts counting reg) :
    Accounts counting reg' := by
  cases hstep with
  | stop hphase =>
    refine h.of_eq rfl rfl ?_ ?_ rfl
    all_goals simp [releaseSlot, hphase, phaseHoldsSlot]
  | interrupted => exact h.release rfl rfl rfl rfl rfl rfl
  | message hphase => exact h.move rfl rfl (by rw [hphase]; rfl) rfl rfl rfl
  | rest | complete => exact h
  | settle => exact h.release rfl rfl rfl rfl rfl rfl

theorem publishCompletion_accounts (h : Accounts counting reg) (record : SubagentRecord)
    (status : SubagentStatus) (metadata : Option InterAgentMessageMetadata) :
    Accounts counting (reg.publishCompletion record status metadata).2 := by
  obtain ⟨mail, hmail⟩ := publishCompletion_mail reg record status metadata
  rw [hmail]
  exact h.of_eq rfl rfl rfl rfl rfl

/-- Supervisors keep the accounts. -/
theorem SupervisorEffect.accounts {thread : SupervisorThread} {event : SupervisorEvent}
    (heffect : SupervisorEffect reg thread event reg') (h : Accounts counting reg) :
    Accounts counting reg' := by
  cases heffect with
  | take ht => exact takeStartedWork_accounts h ht
  | step hpc hstep => exact hstep.accounts h
  | finish hpc hfinish => exact (finishSupervisorStep_case hfinish).accounts h
  | publish hpc => exact publishCompletion_accounts h _ _ _
  | _ => exact h.of_eq rfl rfl rfl rfl rfl

section

variable (h : Accounts counting reg)
include h

theorem admitSubagent_accounts {request : SpawnRequest}
    (hnew : ∀ r ∈ reg.registryAgents, r.recordId ≠ request.agentId)
    (hadmission : reg.admitSubagent request = .ok (record, reg')) : Accounts counting reg' := by
  obtain ⟨-, hlimit, -, hid, work, -, rfl⟩ := admitSubagent_ok hadmission
  refine h.insert (fun r hr => hid ▸ hnew r hr) rfl rfl (fun _ => rfl) rfl ?_
  intro admission hadmission
  rcases mem_cons.mp hadmission with rfl | hadmission
  · exact hlimit
  · exact h.admitted admission hadmission

theorem restoreMissing_accounts {request : RestoreRequest}
    (hnew : ∀ r ∈ reg.registryAgents, r.recordId ≠ request.agentId)
    (hrestore : reg.restoreMissing request = .ok (record, reg')) : Accounts counting reg' := by
  obtain ⟨-, hid, paths, rfl⟩ := restoreMissing_ok hrestore
  refine h.insert (fun r hr => hid ▸ hnew r hr) rfl rfl (fun _ => ?_) rfl h.admitted
  rw [normalizedPhase_slot]
  simp [allocate, insertAgent]

theorem interruptRecordForTurn_accounts (turn : RootTurnId)
    (record : SubagentRecord) : Accounts counting (reg.interruptRecordForTurn turn record).2 := by
  obtain ⟨-, heq⟩ | ⟨work, -, heq⟩ | ⟨owner, hphase, heq⟩ | ⟨owner, -, heq⟩ :=
    interruptRecordForTurn_case reg turn record
  all_goals rw [heq]
  · exact h
  · exact h.release rfl rfl rfl rfl rfl rfl
  · exact h.move rfl rfl (by rw [hphase]; rfl) rfl rfl rfl
  · exact h

theorem interruptRecord_accounts (record : SubagentRecord) :
    Accounts counting (reg.interruptRecord record).2 := by
  obtain ⟨-, heq⟩ | ⟨work, -, heq⟩ | ⟨owner, hphase, heq⟩ | ⟨owner, -, heq⟩ :=
    interruptRecord_case reg record
  all_goals rw [heq]
  · exact h.of_eq rfl rfl rfl rfl rfl
  · exact h.release rfl rfl rfl rfl rfl rfl
  · exact h.move rfl rfl (by rw [hphase]; rfl) rfl rfl rfl
  · exact h.of_eq rfl rfl rfl rfl rfl

/-- The slot of pending work passes to the work that replaces it. -/
theorem replacePending_accounts {work : Work}
    (hphase : reg.recordPhase record = .pending work) (next : Work) (rest : List Work) :
    Accounts counting (reg.replacePending record next rest) := by
  have hslot : phaseHoldsSlot (reg.recordPhase record) = true := by
    rw [hphase]
    rfl
  have hwritten : (reg.replacePending record next rest).recordPhase
      = Function.update reg.recordPhase record (.pending next) := rfl
  refine h.of_setPhase hwritten rfl (fun _ => h.owned record hslot) ?_ ?_ h.admitted
  · intro hc
    have hexact := (h.releaseSlot_exact hc record).1
    rw [hslot] at hexact ⊢
    -- one slot released, one counted again
    change (reg.releaseSlot record).registryLiveCount + 1 + 1 = reg.registryLiveCount + 1
    simp only [if_true] at hexact
    omega
  · intro hc
    exact (h.releaseSlot_exact hc record).2

theorem interruptPending_accounts (record : SubagentRecord) :
    Accounts counting (reg.interruptPending record).2 := by
  obtain ⟨status, turn, hphase, heq⟩ | ⟨work, next, rest, hphase, -, heq⟩ | ⟨work, -, heq⟩ | heq :=
    interruptPending_case reg record
  all_goals rw [heq]
  · exact h.move rfl rfl (by rw [hphase]; rfl) rfl rfl rfl
  · exact replacePending_accounts h hphase next rest
  · exact h.release rfl rfl rfl rfl rfl rfl
  · exact h

theorem scheduleIdleWork_accounts {work : Work}
    (hmem : record ∈ reg.registryAgents ∨ reg.recordPhase record = .closed)
    (hschedule : reg.scheduleIdleWork record work = .ok reg') : Accounts counting reg' := by
  obtain ⟨⟨status, turn, hphase⟩, hlimit, rfl⟩ := scheduleIdleWork_ok hschedule
  have hrecord : record ∈ reg.registryAgents := by
    -- only an idle record is scheduled, so it cannot be the closed case
    refine hmem.resolve_right fun hclosed => ?_
    rw [hphase] at hclosed
    cases hclosed
  exact h.take hrecord (by rw [hphase]; rfl) hlimit work

/-- Clearing a registry whose records are all closed. -/
theorem clear_accounts (hclosed : ∀ r ∈ reg.registryAgents, reg.recordPhase r = .closed) :
    Accounts counting reg.clear where
  ids := .nil
  owned := by
    intro r hr
    have hr' : phaseHoldsSlot (reg.recordPhase r) := hr
    rw [hclosed r (h.owned r hr')] at hr'
    cases hr'
  live := fun _ => rfl
  clamped := h.clamped
  admitted := h.admitted

end

end Registry

/-! ### What the holder of the lock knows -/

variable {counting : Prop} {reg reg' : Registry} {record : SubagentRecord}

/-- The records are registered, or closed. -/
def Registry.Usable (reg : Registry) (records : List SubagentRecord) : Prop :=
  ∀ r ∈ records, r ∈ reg.registryAgents ∨ reg.recordPhase r = .closed

/-- The records a scheduler still has to look at. -/
def dueRecords (due : Option DueRun) : List SubagentRecord := due.elim [] (·.rest)

/-- `shutdownRecord` has closed its record. -/
def ShutdownPc.hasClosed : ShutdownPc → Bool
  | .cancelling => false
  | .closing => false
  | .stopping _ => true
  | .finished => true

/-- The record that is reopened holds no slot until its supervisor is there. -/
def StartCaller.SlotSafe (reg : Registry) (record : SubagentRecord) : StartCaller → Prop
  | .restoreExisting => phaseHoldsSlot (reg.recordPhase record) = false
  | _ => True

/-- What the holder of the lock knows about the records it works on: those it may schedule are
registered unless they are closed, those it reopens hold no slot, and those it resets are closed
one by one. -/
def LockedOp.SlotSafe (counting : Prop) (reg : Registry) : LockedOp → Prop
  | .sendFound record _ _ => reg.Usable [record]
  | .restartReset record _ => reg.Usable [record]
  | .restartSchedule record _ => reg.Usable [record]
  | .resumeAdmit record _ due => reg.Usable (record :: dueRecords due)
  | .resumePersist record _ due => reg.Usable (record :: dueRecords due)
  | .resumeReset record _ due => reg.Usable (record :: dueRecords due)
  | .resumeSchedule record _ due => reg.Usable (record :: dueRecords due)
  | .dueNext _ records => reg.Usable records
  | .dueTake _ record _ _ rest => reg.Usable (record :: rest)
  | .dueRestore _ _ due => reg.Usable (dueRecords due)
  | .restoreReopen record _ => phaseHoldsSlot (reg.recordPhase record) = false
  | .restoreFailed record => phaseHoldsSlot (reg.recordPhase record) = false
  | .restoreIdle record _ => phaseHoldsSlot (reg.recordPhase record) = false
  | .restoreInsert request => ∀ r ∈ reg.registryAgents, r.recordId ≠ request.agentId
  | .startCheck record caller => caller.SlotSafe reg record
  | .startThread record caller => caller.SlotSafe reg record
  | .startWait record _ caller => caller.SlotSafe reg record
  | .startStop record _ caller _ => caller.SlotSafe reg record
  | .shuttingDown true records pc =>
      (∀ r ∈ reg.registryAgents, r ∈ records) ∧
        ∀ r ∈ records, (pc r).hasClosed → reg.recordPhase r = .closed
  | .stopping _ _ => ¬ counting
  | _ => True

def HolderSafe (counting : Prop) (reg : Registry) (holder : Option LockedOp) : Prop :=
  ∀ op, holder = some op → op.SlotSafe counting reg

theorem HolderSafe.none : HolderSafe counting reg none := by
  intro op hop
  cases hop

theorem HolderSafe.some {op : LockedOp} (h : op.SlotSafe counting reg) :
    HolderSafe counting reg (some op) := by
  rintro _ ⟨⟩
  exact h

section Stability

variable (hrely : Rely reg reg')
  (hkept : ∀ r ∈ reg.registryAgents, r ∈ reg'.registryAgents ∨ reg'.recordPhase r = .closed)

include hrely hkept

theorem Registry.Usable.mono {records : List SubagentRecord} (h : reg.Usable records) :
    reg'.Usable records := by
  intro r hr
  rcases h r hr with hmem | hclosed
  · exact hkept r hmem
  · exact .inr (hrely.closed r hclosed)

omit hkept in
theorem Registry.Rely.slotless (hslot : phaseHoldsSlot (reg.recordPhase record) = false) :
    phaseHoldsSlot (reg'.recordPhase record) = false := by
  rw [Bool.eq_false_iff] at hslot ⊢
  exact mt (hrely.slots record) hslot

omit hkept in
theorem StartCaller.SlotSafe.mono {caller : StartCaller} (h : caller.SlotSafe reg record) :
    caller.SlotSafe reg' record := by
  cases caller with
  | restoreExisting => exact hrely.slotless h
  | _ => trivial

/-- The knowledge of the holder survives the moves of the others. -/
theorem LockedOp.SlotSafe.mono {op : LockedOp} (h : op.SlotSafe counting reg) :
    op.SlotSafe counting reg' := by
  cases op with
  -- the operations that go on to schedule a record they looked up before
  | sendFound | restartReset | restartSchedule | resumeAdmit | resumePersist | resumeReset
  | resumeSchedule | dueNext | dueTake | dueRestore =>
    exact Usable.mono hrely hkept h
  | restoreReopen | restoreFailed | restoreIdle => exact hrely.slotless h
  | restoreInsert => exact fun r hr => h r (hrely.agents r hr)
  | startCheck | startThread | startWait | startStop => exact StartCaller.SlotSafe.mono hrely h
  | shuttingDown reset records pc =>
    cases reset with
    | false => trivial
    | true =>
      exact ⟨fun r hr => h.1 r (hrely.agents r hr),
        fun r hr hclosed => hrely.closed r (h.2 r hr hclosed)⟩
  | stopping => exact h
  | _ => trivial

end Stability

theorem HolderSafe.mono {holder : Option LockedOp} (h : HolderSafe counting reg holder)
    (hrely : Rely reg reg')
    (hkept : ∀ r ∈ reg.registryAgents, r ∈ reg'.registryAgents ∨ reg'.recordPhase r = .closed) :
    HolderSafe counting reg' holder :=
  fun op hop => (h op hop).mono hrely hkept

/-- How a resumption goes on. -/
theorem afterResume_safe {work : Work} {due : Option DueRun} (h : reg.Usable (dueRecords due))
    (ok : Bool) : HolderSafe counting reg (afterResume record work due ok) := by
  cases due with
  | none => exact .none
  | some due =>
    simp only [afterResume, map_some]
    split
    · exact .some h
    · exact .some h

/-! ### The moves of the holder -/

theorem Registry.lookup_mem {agentId : SubagentId} (h : reg.lookup agentId = some record) :
    record ∈ reg.registryAgents :=
  mem_of_lookup h

/-- A call starts with what its operation has to know. -/
theorem beginOp_slots (h : Accounts counting reg) (call : LifecycleRequest)
    (hstop : counting → call ≠ .stopSubagentRegistry) :
    Accounts counting (beginOp reg call).1 ∧
      HolderSafe counting (beginOp reg call).1 (beginOp reg call).2 := by
  have hsame : Accounts counting { reg with registryClosed := true } :=
    h.of_eq rfl rfl rfl rfl rfl
  cases call with
  | sendInput agentId turn senderPath content metadata interrupt =>
    simp only [beginOp]
    split
    · exact ⟨h, .none⟩
    · refine ⟨h, fun op hop => ?_⟩
      obtain ⟨record, hlookup, rfl⟩ := map_eq_some_iff.mp hop
      intro r hr
      rw [mem_singleton.mp hr]
      exact .inl (lookup_mem hlookup)
  | queueMessage agentId turn senderPath content metadata =>
    simp only [beginOp, Registry.queueMessage]
    repeat' split
    all_goals first
      | exact ⟨h, .none⟩
      | skip
    rename_i hqueued
    repeat' split at hqueued
    all_goals cases hqueued
    exact ⟨h.of_eq rfl rfl rfl rfl rfl, .none⟩
  | resumeDueSubagents now => exact ⟨h, .some fun r hr => .inl hr⟩
  | closeSubagent agentId =>
    refine ⟨h, fun op hop => ?_⟩
    obtain ⟨record, -, rfl⟩ := map_eq_some_iff.mp hop
    trivial
  | closeSubagentRegistry => exact ⟨hsame, .some trivial⟩
  | resetSubagentRegistry => exact ⟨hsame, .some ⟨fun r hr => hr, fun r _ hr => nomatch hr⟩⟩
  | stopSubagentRegistry => exact ⟨hsame, .some fun hc => hstop hc rfl⟩
  | abortRootTurn turn => exact ⟨h.of_eq rfl rfl rfl rfl rfl, .some trivial⟩
  | interruptActiveSubagents => exact ⟨hsame, .some trivial⟩
  | interruptSubagent agentId =>
    refine ⟨h, fun op hop => ?_⟩
    obtain ⟨record, -, rfl⟩ := map_eq_some_iff.mp hop
    trivial
  | restoreSubagent request =>
    simp only [beginOp]
    split
    · exact ⟨h, .none⟩
    · split
      · exact ⟨h, .some trivial⟩
      · rename_i hlookup
        exact ⟨h, .some (lookup_eq_none_iff.mp hlookup)⟩
  | requestSubagentSuspension agentId now deadline reason =>
    simp only [beginOp]
    split
    · split
      · exact ⟨h, .some trivial⟩
      · exact ⟨h, .none⟩
    · exact ⟨h, .none⟩

/-- The operations that only look at the registry. -/
theorem advance_slots {op : LockedOp} {ok : Bool} {next : Registry × Option LockedOp}
    (h : Accounts counting reg) (hsafe : op.SlotSafe counting reg)
    (hstep : op.advance reg ok = some next) :
    Accounts counting next.1 ∧ HolderSafe counting next.1 next.2 := by
  cases op with
  | sendFound record work interrupt =>
    simp only [LockedOp.advance] at hstep
    split at hstep
    all_goals cases hstep
    · exact ⟨h, .none⟩
    · exact ⟨h, .none⟩
    · exact ⟨h, .some trivial⟩
    · exact ⟨h, .some trivial⟩
    · exact ⟨h, .some hsafe⟩
    · exact ⟨h, .some hsafe⟩
  | sendQueue record work interrupt =>
    simp only [LockedOp.advance] at hstep
    split at hstep
    · cases hstep
      exact ⟨h, .none⟩
    · cases hstep
      refine ⟨h.of_eq rfl rfl rfl rfl rfl, ?_⟩
      cases interrupt with
      | false => exact .none
      | true => exact .some trivial
  | sendCancel record =>
    cases hstep
    exact ⟨h.of_eq rfl rfl rfl rfl rfl, .none⟩
  | restartReset record work =>
    cases hstep
    exact ⟨h.of_eq rfl rfl rfl rfl rfl, .some hsafe⟩
  | restartSchedule record work =>
    simp only [LockedOp.advance] at hstep
    split at hstep
    · cases hstep
      exact ⟨h, .none⟩
    · split at hstep
      · cases hstep
        exact ⟨h, .none⟩
      · rename_i scheduled hschedule
        cases hstep
        exact ⟨scheduleIdleWork_accounts h (hsafe record mem_cons_self) hschedule, .none⟩
  | resumeAdmit record work due =>
    simp only [LockedOp.advance] at hstep
    split at hstep
    · cases hstep
      exact ⟨h, afterResume_safe (fun r hr => hsafe r (mem_cons_of_mem _ hr)) false⟩
    · cases hstep
      exact ⟨h, .some hsafe⟩
  | resumePersist record work due =>
    simp only [LockedOp.advance] at hstep
    split at hstep
    · cases hstep
      exact ⟨h, .some hsafe⟩
    · cases hstep
      exact ⟨h, afterResume_safe (fun r hr => hsafe r (mem_cons_of_mem _ hr)) false⟩
  | resumeReset record work due =>
    cases hstep
    exact ⟨h.of_eq rfl rfl rfl rfl rfl, .some hsafe⟩
  | resumeSchedule record work due =>
    simp only [LockedOp.advance] at hstep
    split at hstep
    · cases hstep
      exact ⟨h, afterResume_safe (fun r hr => hsafe r (mem_cons_of_mem _ hr)) false⟩
    · rename_i scheduled hschedule
      cases hstep
      refine ⟨scheduleIdleWork_accounts h (hsafe record mem_cons_self) hschedule,
        afterResume_safe ?_ true⟩
      obtain ⟨⟨status, turn, hphase⟩, -, rfl⟩ := scheduleIdleWork_ok hschedule
      intro r hr
      rcases hsafe r (mem_cons_of_mem _ hr) with hmem | hclosed
      · exact .inl hmem
      · -- the scheduled record was idle, so this is another one
        have hne : r ≠ record := by
          rintro rfl
          rw [hphase] at hclosed
          cases hclosed
        exact .inr (by simpa [takeSlot, setPhase, update_of_ne hne] using hclosed)
  | dueNext now records =>
    cases records with
    | nil =>
      cases hstep
      exact ⟨h, .none⟩
    | cons record rest =>
      simp only [LockedOp.advance] at hstep
      split at hstep
      · cases hstep
        exact ⟨h, .some hsafe⟩
      · cases hstep
        exact ⟨h, .some fun r hr => hsafe r (mem_cons_of_mem _ hr)⟩
  | dueTake now record deadline reason rest =>
    simp only [LockedOp.advance] at hstep
    split at hstep
    · cases hstep
      exact ⟨h.of_eq rfl rfl rfl rfl rfl, .some hsafe⟩
    · split at hstep
      · cases hstep
        exact ⟨h, .some hsafe⟩
      · cases hstep
        exact ⟨h, .some fun r hr => hsafe r (mem_cons_of_mem _ hr)⟩
  | dueRestore record work due =>
    cases hstep
    refine ⟨h.of_eq rfl rfl rfl rfl rfl, ?_⟩
    cases due with
    | none => exact .none
    | some due => exact .some hsafe
  | closeFound record =>
    simp only [LockedOp.advance] at hstep
    obtain ⟨below, -, rfl⟩ := map_eq_some_iff.mp hstep
    exact ⟨h, .some trivial⟩
  | interruptFound record =>
    cases hstep
    exact ⟨h.of_eq rfl rfl rfl rfl rfl, .some trivial⟩
  | interruptSettle record =>
    rw [LockedOp.advance, some.injEq] at hstep
    subst hstep
    refine ⟨interruptPending_accounts h record, ?_⟩
    dsimp only
    split
    · exact .none
    · exact .some trivial
  | interruptCancel record =>
    cases hstep
    exact ⟨h.of_eq rfl rfl rfl rfl rfl, .none⟩
  | restoreFound record request =>
    simp only [LockedOp.advance] at hstep
    split at hstep
    all_goals cases hstep
    · exact ⟨h, .none⟩
    · exact ⟨h, .none⟩
    · exact ⟨h, .none⟩
    · exact ⟨h, .some trivial⟩
  | restoreReset record request wasClosed =>
    cases hstep
    exact ⟨h.of_eq rfl rfl rfl rfl rfl, .some trivial⟩
  | restoreWrite record request wasClosed =>
    cases hstep
    refine ⟨h.release rfl rfl (normalizedPhase_slot request) rfl rfl rfl, ?_⟩
    cases wasClosed with
    | false => exact .none
    | true =>
      refine .some ?_
      change phaseHoldsSlot ((reg.rewriteRecord record request.normalizedPhase).recordPhase record)
        = false
      simp [rewriteRecord, insertPath, setPhase, normalizedPhase_slot]
  | restoreReopen record request =>
    cases hstep
    refine ⟨h.move rfl rfl ?_ rfl rfl rfl, .some ?_⟩
    · rw [show phaseHoldsSlot (reg.recordPhase record) = false from hsafe]
      rfl
    · simp [LockedOp.SlotSafe, StartCaller.SlotSafe, setPhase, phaseHoldsSlot]
  | restoreFailed record =>
    cases hstep
    refine ⟨h.move rfl rfl ?_ rfl rfl rfl, .none⟩
    rw [show phaseHoldsSlot (reg.recordPhase record) = false from hsafe]
    rfl
  | restoreInsert request =>
    simp only [LockedOp.advance] at hstep
    split at hstep
    · cases hstep
      exact ⟨h, .none⟩
    · rename_i record restored hrestore
      cases hstep
      refine ⟨restoreMissing_accounts h hsafe hrestore, .some ?_⟩
      obtain ⟨-, -, paths, rfl⟩ := restoreMissing_ok hrestore
      simp [LockedOp.SlotSafe, insertAgent, allocate, normalizedPhase_slot]
  | restoreIdle record request =>
    cases hstep
    refine ⟨?_, .some trivial⟩
    dsimp only
    split
    · refine h.move rfl rfl ?_ rfl rfl rfl
      rw [show phaseHoldsSlot (reg.recordPhase record) = false from hsafe]
      rfl
    · exact h
  | suspendInsert agentId deadline reason =>
    cases hstep
    exact ⟨h.of_eq rfl rfl rfl rfl rfl, .none⟩
  | commit | shuttingDown | stopping | interrupting | restoreRollback | startCheck | startThread
  | startWait | startStop => cases hstep

/-! ### Shutdowns and rollbacks -/

section Records

variable {stopped : ℕ → Bool} (h : Accounts counting reg)

include h

theorem JoinPc.step_accounts {pc : JoinPc} {next : JoinPc × Registry}
    (hstep : pc.step reg stopped record = some next) : Accounts counting next.2 := by
  cases pc with
  | taking =>
    cases hstep
    exact h.of_eq rfl rfl rfl rfl rfl
  | joining sid =>
    simp only [JoinPc.step] at hstep
    split at hstep
    · cases hstep
      exact h
    · cases hstep
  | joined => cases hstep

theorem ShutdownPc.step_accounts {pc : ShutdownPc} {next : ShutdownPc × Registry}
    (hstep : pc.step reg stopped record = some next) : Accounts counting next.2 := by
  unfold ShutdownPc.step at hstep
  split at hstep
  · cases hstep
    exact h.of_eq rfl rfl rfl rfl rfl
  · cases hstep
    exact h.release rfl rfl rfl rfl rfl rfl
  · cases hstep
    exact h.of_eq rfl rfl rfl rfl rfl
  · obtain ⟨join, hjoin, rfl⟩ := map_eq_some_iff.mp hstep
    exact JoinPc.step_accounts h hjoin
  · cases hstep

theorem RollbackPc.step_accounts {pc : RollbackPc} {next : RollbackPc × Registry}
    (hown : pc = .deleting → reg.OwnId record)
    (hstep : pc.step reg stopped record = some next) : Accounts counting next.2 := by
  cases pc with
  | deleting =>
    cases hstep
    exact h.rollbackAdmission (hown rfl)
  | stopping join =>
    obtain ⟨next, hjoin, rfl⟩ := map_eq_some_iff.mp hstep
    exact JoinPc.step_accounts h hjoin

end Records

/-- A shutdown closes its record for good. -/
theorem ShutdownPc.step_closed {stopped : ℕ → Bool} {pc : ShutdownPc}
    {next : ShutdownPc × Registry} (hclosed : pc.hasClosed → reg.recordPhase record = .closed)
    (hstep : pc.step reg stopped record = some next) (hnext : next.1.hasClosed) :
    next.2.recordPhase record = .closed := by
  have hrely := ShutdownPc.step_rely hstep
  unfold ShutdownPc.step at hstep
  split at hstep
  · cases hstep
    cases hnext
  · cases hstep
    simp [closeRecord, setMailbox, setMail, setPhase]
  · exact hrely.closed record (hclosed rfl)
  · exact hrely.closed record (hclosed rfl)
  · cases hstep

/-- A rollback under its own id removes closed records only. -/
theorem RollbackPc.step_kept {stopped : ℕ → Bool} {pc : RollbackPc} {next : RollbackPc × Registry}
    (hown : pc = .deleting → reg.OwnId record)
    (hstep : pc.step reg stopped record = some next) :
    ∀ r ∈ reg.registryAgents, r ∈ next.2.registryAgents ∨ next.2.recordPhase r = .closed := by
  intro r hr
  cases pc with
  | deleting =>
    cases hstep
    by_cases hid : r.recordId = record.recordId
    · rw [hown rfl r hr hid]
      exact .inr (by simp [rollbackAdmission, setPhase])
    · exact .inl (mem_delete.mpr ⟨hr, hid⟩)
  | stopping join =>
    obtain ⟨next, hjoin, rfl⟩ := map_eq_some_iff.mp hstep
    exact .inl ((JoinPc.step_agents hjoin).symm ▸ hr)

/-! ### The invariant of runs -/

namespace RegistryWorld

variable {w w' : RegistryWorld}

/-- The accounts are right, and the holder of the lock knows what it has to. -/
structure SlotInv (counting : Prop) (w : RegistryWorld) : Prop where
  accounts : Accounts counting w.registry
  holder : HolderSafe counting w.registry w.lifecycle

/-- A rollback is about to delete the record. -/
def deletes (w : RegistryWorld) : RegistryEvent → Option SubagentRecord
  | .spawned tid .proceed =>
      match w.spawns[tid]? with
      | some { record := record, pc := .rollingBack .deleting _ } => some record
      | _ => none
  | .start _ =>
      match w.lifecycle with
      | some (.restoreRollback record .deleting) => some record
      | _ => none
  | _ => none

/-- The id an admission uses. -/
def admittedId : RegistryEvent → Option SubagentId
  | .spawn request => some request.agentId
  | _ => none

/-- An admission uses a new id, and a rollback finds its own record or none under its id. -/
def Identified (w : RegistryWorld) (event : RegistryEvent) : Prop :=
  (∀ agentId ∈ admittedId event, ∀ r ∈ w.registry.registryAgents, r.recordId ≠ agentId) ∧
  ∀ record ∈ w.deletes event, w.registry.OwnId record

instance (w : RegistryWorld) (event : RegistryEvent) : Decidable (w.Identified event) :=
  inferInstanceAs (Decidable (_ ∧ _))

theorem init_slotInv (config : SubagentConfig) : (init config).SlotInv counting where
  accounts :=
    { ids := .nil
      owned := fun _ hslot => nomatch hslot
      live := fun _ => rfl
      clamped := fun _ => rfl
      admitted := fun _ hmem => nomatch hmem }
  holder := .none

/-- The accounts after a move of a thread without the lock. -/
theorem SlotInv.of_rely (h : w.SlotInv counting) (haccounts : Accounts counting w'.registry)
    (hrely : Rely w.registry w'.registry)
    (hkept : ∀ r ∈ w.registry.registryAgents,
      r ∈ w'.registry.registryAgents ∨ w'.registry.recordPhase r = .closed)
    (hlock : w'.lifecycle = w.lifecycle ∨ HolderSafe counting w'.registry w'.lifecycle) :
    w'.SlotInv counting where
  accounts := haccounts
  holder := by
    rcases hlock with hlock | hsafe
    · rw [hlock]
      exact h.holder.mono hrely hkept
    · exact hsafe

theorem supervise_slotInv {sid : ℕ} {thread : SupervisorThread} {event : SupervisorEvent}
    (h : w.SlotInv counting) (hget : w.supervisors[sid]? = some thread)
    (hstep : w.supervise sid thread event = some w') : w'.SlotInv counting := by
  obtain ⟨heffect, -, hframe⟩ := supervise_case hget hstep
  refine h.of_rely (heffect.accounts h.accounts) heffect.rely ?_ ?_
  · intro r hr
    rw [heffect.agents]
    exact .inl hr
  · rcases hframe.lifecycle with hlock | hlock | ⟨request, -, hlock⟩
    · exact .inl hlock
    · rw [hlock]
      exact .inr .none
    · rw [hlock]
      exact .inr (.some trivial)

theorem spawnStep_slotInv {tid : ℕ} {thread : SpawnThread} {event : SpawnEvent}
    (h : w.SlotInv counting)
    (hown : ∀ last, event = .proceed → thread.pc = .rollingBack .deleting last →
      w.registry.OwnId thread.record)
    (hstep : w.spawnStep tid thread event = some w') : w'.SlotInv counting := by
  have hrely := spawnStep_rely hstep
  cases event with
  | proceed =>
    simp only [spawnStep] at hstep
    split at hstep
    · cases hstep
      exact ⟨h.accounts, h.holder⟩
    · obtain ⟨next, hnext, rfl⟩ := map_eq_some_iff.mp hstep
      refine h.of_rely (ShutdownPc.step_accounts h.accounts hnext) hrely ?_ (.inl rfl)
      intro r hr
      exact .inl ((ShutdownPc.step_agents hnext).symm ▸ hr)
    · cases hstep
      exact ⟨h.accounts, h.holder⟩
    · rename_i pc last _ hpc
      obtain ⟨next, hnext, rfl⟩ := map_eq_some_iff.mp hstep
      have hdeleting : pc = .deleting → w.registry.OwnId thread.record := by
        rintro rfl
        exact hown last rfl hpc
      exact h.of_rely (RollbackPc.step_accounts h.accounts hdeleting hnext) hrely
        (RollbackPc.step_kept hdeleting hnext) (.inl rfl)
    · cases hstep
  | start =>
    simp only [spawnStep] at hstep
    split at hstep
    · cases hstep
      exact ⟨h.accounts, .some trivial⟩
    · cases hstep
  | _ =>
    simp only [spawnStep] at hstep
    split at hstep
    all_goals first
      | cases hstep; exact ⟨h.accounts, h.holder⟩
      | cases hstep

section

variable (h : Accounts counting w.registry)
include h

theorem StartEnd.slotInv {caller : StartCaller} (hend : StartEnd w record caller w')
    (hsafe : caller.SlotSafe w.registry record) : w'.SlotInv counting := by
  cases hend with
  | spawn | released => exact ⟨h, .none⟩
  | failed => exact ⟨h, .some hsafe⟩
  | rollback => exact ⟨h, .some trivial⟩

theorem startStep_slotInv {op : LockedOp} {ok : Bool} (hsafe : op.SlotSafe counting w.registry)
    (hown : ∀ record, op = .restoreRollback record .deleting → w.registry.OwnId record)
    (hstep : w.startStep ok op = some w') : w'.SlotInv counting := by
  cases startStep_case hstep with
  | ended hop hend =>
    refine hend.slotInv h ?_
    obtain rfl | rfl | ⟨sid, rfl⟩ | ⟨join, thrown, rfl⟩ := hop <;> exact hsafe
  | checked | refused => exact ⟨h, .some hsafe⟩
  | started => exact ⟨h.of_eq rfl rfl rfl rfl rfl, .some hsafe⟩
  | joined hnext =>
    exact ⟨JoinPc.step_accounts h hnext,
      .some (StartCaller.SlotSafe.mono (JoinPc.step_rely hnext) hsafe)⟩
  | rolledBack => exact ⟨h, .none⟩
  | rollback hnext =>
    exact ⟨RollbackPc.step_accounts h (fun hpc => hown _ (hpc ▸ rfl)) hnext, .some trivial⟩

theorem interruptStep_slotInv {kind : InterruptKind} {records : List SubagentRecord}
    {pc : SubagentRecord → InterruptPc}
    (hstep : w.interruptStep kind records pc record = some w') : w'.SlotInv counting := by
  unfold interruptStep at hstep
  simp only at hstep
  split at hstep
  · cases hstep
    exact ⟨h.of_eq rfl rfl rfl rfl rfl, .some trivial⟩
  · cases hstep
    refine ⟨?_, .some trivial⟩
    cases kind with
    | abortTurn turn => exact interruptRecordForTurn_accounts h turn record
    | active wasClosed => exact interruptRecord_accounts h record
  · cases hstep
    exact ⟨h.of_eq rfl rfl rfl rfl rfl, .some trivial⟩
  · split at hstep
    · cases hstep
    · cases hstep
      exact ⟨h, .some trivial⟩
  · cases hstep

theorem workerStep_slotInv {op : LockedOp}
    (hsafe : op.SlotSafe counting w.registry) (hstep : w.workerStep record op = some w') :
    w'.SlotInv counting := by
  unfold workerStep at hstep
  split at hstep
  · rename_i reset records pc
    split at hstep
    · rename_i hmem
      obtain ⟨next, hnext, rfl⟩ := map_eq_some_iff.mp hstep
      refine ⟨ShutdownPc.step_accounts h hnext, .some ?_⟩
      cases reset with
      | false => trivial
      | true =>
        refine ⟨fun r hr => hsafe.1 r (ShutdownPc.step_agents hnext ▸ hr), fun r hr hclosed => ?_⟩
        by_cases hrecord : r = record
        · subst hrecord
          rw [update_self] at hclosed
          exact ShutdownPc.step_closed (hsafe.2 r hr) hnext hclosed
        · rw [update_of_ne hrecord] at hclosed
          exact (ShutdownPc.step_rely hnext).closed r (hsafe.2 r hr hclosed)
    · cases hstep
  · split at hstep
    · obtain ⟨next, hnext, rfl⟩ := map_eq_some_iff.mp hstep
      exact ⟨JoinPc.step_accounts h hnext, .some hsafe⟩
    · cases hstep
  · split at hstep
    · exact interruptStep_slotInv h hstep
    · cases hstep
  · cases hstep

theorem concludeStep_slotInv {op : LockedOp}
    (hsafe : op.SlotSafe counting w.registry) (hstep : w.concludeStep op = some w') :
    w'.SlotInv counting := by
  unfold concludeStep at hstep
  split at hstep
  · rename_i reset records pc
    split at hstep
    · rename_i hfinished
      cases hstep
      refine ⟨?_, .none⟩
      cases reset with
      | false => exact h
      | true =>
        refine clear_accounts h fun r hr => ?_
        have hr' := hsafe.1 r hr
        exact hsafe.2 r hr' (by rw [hfinished r hr']; rfl)
    · cases hstep
  · split at hstep
    · cases hstep
      -- without the count, nothing is said about the number of slots
      exact ⟨⟨h.ids, h.owned, fun hc => absurd hc hsafe, fun hc => absurd hc hsafe, h.admitted⟩,
        .none⟩
    · cases hstep
  · split at hstep
    · split at hstep
      · cases hstep
        exact ⟨h, .none⟩
      · cases hstep
        exact ⟨h.of_eq rfl rfl rfl rfl rfl, .none⟩
    · cases hstep
  · cases hstep

end

/-- An abandoned resumption puts the message back, and then looks at no other record. -/
theorem abandonedResume_safe (record : SubagentRecord) (work : Work) (queued : Bool) :
    HolderSafe counting reg (if queued then some (.dueRestore record work none) else none) := by
  cases queued with
  | false => exact .none
  | true => exact .some fun r hr => nomatch hr

theorem abandonStep_slotInv {op : LockedOp} (h : Accounts counting w.registry)
    (hsafe : op.SlotSafe counting w.registry) (hstep : w.abandonStep op = some w') :
    w'.SlotInv counting := by
  unfold abandonStep at hstep
  split at hstep
  · cases hstep
  all_goals
    cases hstep
  · exact ⟨h, abandonedResume_safe _ _ _⟩
  · exact ⟨h, abandonedResume_safe _ _ _⟩
  · exact ⟨h, abandonedResume_safe _ _ _⟩
  · exact ⟨h, abandonedResume_safe _ _ _⟩
  · exact ⟨h.of_eq rfl rfl rfl rfl rfl, .none⟩
  · exact (startThrown_end w _ _).slotInv h hsafe
  · exact (startThrown_end w _ _).slotInv h hsafe
  · exact ⟨h, .some hsafe⟩
  · exact (startThrown_end w _ _).slotInv h hsafe
  · exact ⟨h, .none⟩

/-- **Every move keeps the accounts.** -/
theorem slotInv_step {event : RegistryEvent} (h : w.SlotInv counting) (hok : w.Identified event)
    (hstop : counting → event.stops = false)
    (hstep : w.step event = some w') : w'.SlotInv counting := by
  cases event with
  | supervisor sid event =>
    obtain ⟨thread, hget, hstep⟩ := bind_eq_some_iff.mp hstep
    exact supervise_slotInv h hget hstep
  | spawn request =>
    simp only [step] at hstep
    split at hstep
    · cases hstep
    · rename_i hlock
      split at hstep
      · cases hstep
        exact h
      · rename_i record admitted hadmission
        cases hstep
        refine ⟨admitSubagent_accounts h.accounts (hok.1 request.agentId rfl) hadmission, ?_⟩
        dsimp only
        rw [hlock]
        exact .none
  | spawned tid event =>
    obtain ⟨thread, hthread, hstep⟩ := bind_eq_some_iff.mp hstep
    refine spawnStep_slotInv h ?_ hstep
    rintro last rfl hpc
    obtain ⟨record, pc⟩ := thread
    subst hpc
    have hdeletes : w.deletes (.spawned tid .proceed) = some record := by
      simp only [deletes, hthread]
    exact hok.2 record hdeletes
  | request call =>
    simp only [step] at hstep
    split at hstep
    · cases hstep
    · cases hstep
      have hcall : counting → call ≠ .stopSubagentRegistry := by
        rintro hc rfl
        cases hstop hc
      have hbegin := beginOp_slots h.accounts call hcall
      exact ⟨hbegin.1, hbegin.2⟩
  | advance ok =>
    obtain ⟨op, hop, hstep⟩ := bind_eq_some_iff.mp hstep
    obtain ⟨next, hnext, rfl⟩ := map_eq_some_iff.mp hstep
    have hadvance := advance_slots h.accounts (h.holder op hop) hnext
    exact ⟨hadvance.1, hadvance.2⟩
  | start ok =>
    obtain ⟨op, hop, hstep⟩ := bind_eq_some_iff.mp hstep
    refine startStep_slotInv h.accounts (h.holder op hop) ?_ hstep
    rintro record rfl
    have hdeletes : w.deletes (.start ok) = some record := by
      simp only [deletes, hop]
    exact hok.2 record hdeletes
  | worker record =>
    obtain ⟨op, hop, hstep⟩ := bind_eq_some_iff.mp hstep
    exact workerStep_slotInv h.accounts (h.holder op hop) hstep
  | conclude =>
    obtain ⟨op, hop, hstep⟩ := bind_eq_some_iff.mp hstep
    exact concludeStep_slotInv h.accounts (h.holder op hop) hstep
  | abandon =>
    obtain ⟨op, hop, hstep⟩ := bind_eq_some_iff.mp hstep
    exact abandonStep_slotInv h.accounts (h.holder op hop) hstep
  | wait caller targets =>
    cases hstep
    exact h.of_rely (h.accounts.of_eq rfl rfl rfl rfl rfl) (.of_phase rfl rfl rfl rfl)
      (fun r hr => .inl hr) (.inl rfl)
  | waiting wid event =>
    obtain ⟨thread, -, hstep⟩ := bind_eq_some_iff.mp hstep
    obtain ⟨cursors, waits, hreg⟩ := waitStep_registry hstep
    have hlock := (waitStep_frame hstep).1
    refine h.of_rely ?_ (waitStep_rely hstep) ?_ (.inl hlock)
    · rw [hreg]
      exact h.accounts.of_eq rfl rfl rfl rfl rfl
    · rw [hreg]
      exact fun r hr => .inl hr
  | setMaxConcurrent limit | beginRootTurn =>
    cases hstep
    exact h.of_rely (h.accounts.of_eq rfl rfl rfl rfl rfl) (.of_phase rfl rfl rfl rfl)
      (fun r hr => .inl hr) (.inl rfl)

/-- The registry is not stopped, and ids identify records. -/
def Counting (w : RegistryWorld) (event : RegistryEvent) : Prop :=
  event.stops = false ∧ w.Identified event

instance (w : RegistryWorld) (event : RegistryEvent) : Decidable (w.Counting event) :=
  inferInstanceAs (Decidable (_ ∧ _))

end RegistryWorld

/-- **Slots are counted.**  In every state of every run without `stopSubagentRegistry` in which an
admission uses a new id and a rollback finds its own record or none, the live count is the number of
registered records that hold a slot, the clamp of `releaseSlotSTM` never took effect, and every
admission was made below the limit of its moment. -/
theorem slots_counted {config : SubagentConfig} {w : RegistryWorld}
    (h : ReachableBy RegistryWorld.step RegistryWorld.Counting (.init config) w) :
    w.registry.registryLiveCount = w.registry.slotCount ∧ w.registry.clamped = false ∧
      ∀ admission ∈ w.registry.admissions, admission.1 < admission.2 := by
  have hinv : w.SlotInv True :=
    h.invariant (RegistryWorld.init_slotInv config) fun _ _ _ hinv hok hstep =>
      RegistryWorld.slotInv_step hinv hok.2 (fun _ => hok.1) hstep
  exact ⟨hinv.accounts.live trivial, hinv.accounts.clamped trivial, hinv.accounts.admitted⟩

/-! ### Runs -/

/-- A spawn below the root. -/
def exampleSpawn (agentId : SubagentId) (name : Text) (turn : Option RootTurnId) :
    SpawnRequest where
  rootTurnId := turn
  agentId := agentId
  parentId := none
  requestedParentPath := taskPathRoot
  requestedParentDepth := 0
  taskName := name
  content := .plain []
  metadata := { localMessageId := [], originToolCallId := none, originRootTurnId := none }

/-- The record of the `n`th agent, if it is a child of the root. -/
def exampleRecord (ref : ℕ) (agentId : SubagentId) (name : Text) : SubagentRecord where
  recordRef := ref
  recordId := agentId
  recordParent := none
  recordDepth := 1
  recordTaskPath := taskPathRoot ++ ['/'] ++ name

/-- The supervisor of a prepared spawn starts. -/
def startSpawned (tid sid : ℕ) : List RegistryEvent :=
  [.spawned tid (.prepared true), .spawned tid .start, .start true, .start true,
    .supervisor sid (.lease true), .start true, .spawned tid .returned]

/-- The supervisor takes its work and begins to run. -/
def beginRun (sid : ℕ) : List RegistryEvent :=
  [.supervisor sid .take, .supervisor sid .reset]

def exampleSend (agentId : SubagentId) (turn : Option RootTurnId) : RegistryEvent :=
  .request (.sendInput agentId turn taskPathRoot (.plain [])
    { localMessageId := [], originToolCallId := none, originRootTurnId := none } false)

/-- An agent is spawned and runs. -/
def spawnRun : List RegistryEvent :=
  .spawn (exampleSpawn ['x'] ['a'] none) :: startSpawned 0 0 ++ beginRun 0

theorem slots_counted_in_spawnRun :
    ∃ w, ReachableBy RegistryWorld.step RegistryWorld.Counting
        (.init defaultSubagentConfig) w ∧
      w.registry.registryLiveCount = 1 ∧ w.registry.registryLiveCount = w.registry.slotCount := by
  have hrun : (Machine.run (guarded RegistryWorld.Counting RegistryWorld.step)
      (.init defaultSubagentConfig) spawnRun).any
        (fun w => w.registry.registryLiveCount == 1) = true := by
    decide +kernel
  obtain ⟨w, hw, hlive⟩ := exists_reachableBy_of_run hrun
  exact ⟨w, hw, by simpa using hlive, (slots_counted hw).1⟩

/-- While an agent is prepared the registry is reset, and the agent restored and given work; then
its preparation fails. -/
def lostSlotRun : List RegistryEvent :=
  [.spawn (exampleSpawn ['x'] ['a'] none), .request .resetSubagentRegistry,
    .worker (exampleRecord 0 ['x'] ['a']), .worker (exampleRecord 0 ['x'] ['a']),
    .worker (exampleRecord 0 ['x'] ['a']), .worker (exampleRecord 0 ['x'] ['a']), .conclude,
    .request (.restoreSubagent
      { agentId := ['x'], parentId := none
        identity := .located (taskPathRoot ++ ['/', 'a']) 1, restoredStatus := .completed none }),
    .advance true, .advance true, .start true, .start true, .supervisor 0 (.lease true),
    .start true, exampleSend ['x'] none, .advance true, .advance true, .advance true,
    .spawned 0 (.prepared false), .spawned 0 .proceed]

/-- **A slot is lost.**  The failed preparation of the first record deletes the second one from the
registry, together with the slot it holds. -/
theorem slots_lost_after_reset :
    ∃ w, ReachableBy RegistryWorld.step (fun _ event => event.stops = false)
        (.init defaultSubagentConfig) w ∧
      w.registry.registryLiveCount = 1 ∧ w.registry.slotCount = 0 := by
  have hrun : (Machine.run
      (guarded (fun _ event => event.stops = false) RegistryWorld.step)
      (.init defaultSubagentConfig) lostSlotRun).any
        (fun w => w.registry.registryLiveCount == 1 && w.registry.slotCount == 0) = true := by
    decide +kernel
  obtain ⟨w, hw, hlost⟩ := exists_reachableBy_of_run hrun
  simp only [Bool.and_eq_true, beq_iff_eq] at hlost
  exact ⟨w, hw, hlost⟩

end HaskellAgent
