import HaskellAgent.Subagents.Registry.Threads

/-!
# What the threads of the registry can do

The holder of the lifecycle lock relies on the others: supervisors, spawns and waits end turns and
close records, but only the holder makes an idle record active or opens a closed one.  `Rely` is
that promise, and every move without the lock keeps it.  The other lemmas say, once for each
transaction with several outcomes, what they are.
-/

open List Option Function

namespace HaskellAgent

/-- The status a supervisor carries is a final one. -/
def SupervisorPc.StatusFinal : SupervisorPc → Prop
  | .stepping _ status => isFinalStatus status
  | .completing _ status => isFinalStatus status
  | .notifying _ status _ => isFinalStatus status
  | .settling _ status => isFinalStatus status
  | _ => True

/-- The completion is published, and the record not yet settled. -/
def SupervisorPc.isSettling : SupervisorPc → Bool
  | .notifying _ _ _ => true
  | .settling _ _ => true
  | _ => false

theorem settledStatus_final (result : RunResult) (request : Option (UTCTime × Text)) :
    isFinalStatus (settledStatus result request) := by
  cases result <;> cases request <;> rfl

/-- A turn is pending or running. -/
def SubagentPhase.isActive : SubagentPhase → Bool
  | .pending _ => true
  | .running _ => true
  | _ => false

namespace Registry

variable {reg reg' reg'' : Registry} {record r : SubagentRecord} {status : SubagentStatus}

/-! ### The outcomes of transactions -/

theorem takeStartedWork_case {taken : Option Work × Registry}
    (h : reg.takeStartedWork record = some taken) :
    (reg.recordPhase record = .closed ∧ taken = (none, reg)) ∨
      ∃ work, reg.recordPhase record = .pending work ∧
        taken = (some work, reg.setPhase record (.running work.workRootTurnId)) := by
  unfold takeStartedWork at h
  split at h
  · exact .inl ⟨‹_›, (some.inj h).symm⟩
  · exact .inr ⟨_, ‹_›, (some.inj h).symm⟩
  all_goals cases h

/-- The outcomes of a supervisor's step after a run that ended with the status. -/
inductive StepCase (reg : Registry) (record : SubagentRecord) (status : SubagentStatus) :
    SupervisorStep → Registry → Prop
  | stop (hphase : reg.recordPhase record = .closed) :
      StepCase reg record status .stop (reg.releaseSlot record)
  | interrupted {turn : Option RootTurnId} (hphase : reg.recordPhase record = .interrupting turn) :
      StepCase reg record status .idle (reg.transitionToIdle record .interrupted)
  | message {turn : Option RootTurnId} {work : Work} {rest : List Work}
      (hphase : reg.recordPhase record = .running turn)
      (hmail : (reg.recordMail record).recordMailbox = work :: rest) :
      StepCase reg record status (.message work)
        ((reg.setMailbox record rest).setPhase record (.running work.workRootTurnId))
  | rest {old : SubagentStatus} {turn : Option RootTurnId}
      (hphase : reg.recordPhase record = .idle old turn) : StepCase reg record status .idle reg
  | complete {turn : Option RootTurnId} (hphase : reg.recordPhase record = .running turn) :
      StepCase reg record status .complete reg
  | settle {turn : Option RootTurnId} (hphase : reg.recordPhase record = .running turn) :
      StepCase reg record status .idle (reg.transitionToIdle record status)

variable {next : SupervisorStep × Registry}

/-- The step, given what it does with a turn that is over. -/
theorem supervisorStep_case {onIdle : SupervisorStep × Registry}
    (hidle : ∀ turn, reg.recordPhase record = .running turn →
      StepCase reg record status onIdle.1 onIdle.2)
    (h : reg.supervisorStep record onIdle = some next) :
    StepCase reg record status next.1 next.2 := by
  unfold supervisorStep at h
  split at h
  · cases h
    exact .stop ‹_›
  · cases h
    exact .interrupted ‹_›
  · split at h
    · cases h
      exact hidle _ ‹_›
    · cases h
      exact .message ‹_› ‹_›
  · cases h
  · cases h
    exact .rest ‹_›

theorem nextSupervisorStep_case (h : reg.nextSupervisorStep record = some next) :
    StepCase reg record status next.1 next.2 :=
  supervisorStep_case (fun _ hphase => .complete hphase) h

theorem supervisorStepWithoutMailbox_case (h : reg.supervisorStepWithoutMailbox record = some next) :
    StepCase reg record status next.1 next.2 := by
  unfold supervisorStepWithoutMailbox at h
  split at h
  · cases h
    exact .complete ‹_›
  · exact supervisorStep_case (fun _ hphase => .complete hphase) h

theorem finishSupervisorStep_case (h : reg.finishSupervisorStep record status = some next) :
    StepCase reg record status next.1 next.2 := by
  unfold finishSupervisorStep at h
  split at h
  · split at h
    · cases h
      exact .settle ‹_›
    -- not running, so the step never gets to what it does with a turn that is over
    · rename_i hrunning
      exact supervisorStep_case (fun turn hphase => absurd hphase (hrunning turn)) h
  · exact supervisorStep_case (fun _ hphase => .settle hphase) h

/-- Routing a completion changes at most some mail. -/
theorem routeCompletion_mail (reg : Registry) (record : SubagentRecord) (status : SubagentStatus)
    (metadata : Option InterAgentMessageMetadata) :
    ∃ mail, (reg.routeCompletion record status metadata).2 = { reg with recordMail := mail } := by
  unfold routeCompletion
  split
  · exact ⟨_, rfl⟩
  · split
    · exact ⟨_, rfl⟩
    · split
      · exact ⟨_, rfl⟩
      · split
        · exact ⟨_, rfl⟩
        · exact ⟨_, rfl⟩

theorem publishCompletion_mail (reg : Registry) (record : SubagentRecord)
    (status : SubagentStatus) (metadata : Option InterAgentMessageMetadata) :
    ∃ mail, (reg.publishCompletion record status metadata).2
      = { reg.publishDirectUpdate record status with recordMail := mail } :=
  routeCompletion_mail _ _ _ _

/-- What an admission does. -/
theorem admitSubagent_ok {request : SpawnRequest}
    (h : reg.admitSubagent request = .ok (record, reg')) :
    reg.isRootTurnAborted request.rootTurnId = false ∧
      reg.registryLiveCount < reg.registryConfig.maxConcurrent ∧
      record.recordRef = reg.nextRef ∧ record.recordId = request.agentId ∧
      ∃ work, work.workRootTurnId = request.rootTurnId ∧
        reg' = ((((reg.allocate record (.pending work)).takeSlot).countSpawn
          request.rootTurnId).insertAgent record).insertPath record.recordTaskPath
            record.recordId := by
  unfold admitSubagent at h
  split at h
  · cases h
  · split at h
    · cases h
    · rename_i haborted
      split at h
      · cases h
      · split at h
        · cases h
        · cases h
        · split at h
          · cases h
          · split at h
            · cases h
            · split at h
              · cases h
              -- past every refusal: the limit was tested on the count before this admission
              · rename_i hlimit
                cases h
                exact ⟨by simpa using haborted, not_le.mp hlimit, rfl, rfl, _, rfl, rfl⟩

/-- What scheduling does. -/
theorem scheduleIdleWork_ok {work : Work} (h : reg.scheduleIdleWork record work = .ok reg') :
    (∃ status turn, reg.recordPhase record = .idle status turn) ∧
      reg.registryLiveCount < reg.registryConfig.maxConcurrent ∧
      reg' = reg.takeSlot.setPhase record (.pending work) := by
  unfold scheduleIdleWork at h
  split at h
  · cases h
  · split at h
    · split at h
      · cases h
      · rename_i hphase hlimit
        cases h
        exact ⟨⟨_, _, hphase⟩, not_le.mp hlimit, rfl⟩
    all_goals cases h

/-- A restored record holds no slot. -/
theorem normalizedPhase_slot (request : RestoreRequest) :
    phaseHoldsSlot request.normalizedPhase = false := by
  unfold RestoreRequest.normalizedPhase
  split <;> rfl

/-- What restoring a missing record does. -/
theorem restoreMissing_ok {request : RestoreRequest}
    (h : reg.restoreMissing request = .ok (record, reg')) :
    record.recordRef = reg.nextRef ∧ record.recordId = request.agentId ∧
      ∃ paths, reg' = { (reg.allocate record request.normalizedPhase).insertAgent record with
        registryPaths := paths } := by
  unfold restoreMissing at h
  split at h
  · cases h
  · split at h
    · cases h
    · split at h
      · cases h
      · split at h
        · cases h
          exact ⟨rfl, rfl, _, rfl⟩
        · cases h
          exact ⟨rfl, rfl, _, rfl⟩

/-- The outcomes of `interruptRecordForTurn`. -/
theorem interruptRecordForTurn_case (reg : Registry) (turn : RootTurnId) (record : SubagentRecord) :
    (phaseRootTurnId (reg.recordPhase record) ≠ some turn ∨
        phaseHoldsSlot (reg.recordPhase record) = false) ∧
      reg.interruptRecordForTurn turn record = (.unchanged, reg) ∨
    (∃ work, reg.recordPhase record = .pending work ∧
      reg.interruptRecordForTurn turn record = (.settled,
        (reg.releaseSlot record).setPhase record (.idle .interrupted (some turn)))) ∨
    (∃ owner, reg.recordPhase record = .running owner ∧
      reg.interruptRecordForTurn turn record
        = (.wait, reg.setPhase record (.interrupting owner))) ∨
    (∃ owner, reg.recordPhase record = .interrupting owner ∧
      reg.interruptRecordForTurn turn record = (.wait, reg)) := by
  unfold interruptRecordForTurn
  split
  · exact .inl ⟨.inl ‹_›, rfl⟩
  · cases hphase : reg.recordPhase record with
    | idle status owner => exact .inl ⟨.inr rfl, rfl⟩
    | pending work => exact .inr (.inl ⟨work, rfl, rfl⟩)
    | running owner => exact .inr (.inr (.inl ⟨owner, rfl, rfl⟩))
    | interrupting owner => exact .inr (.inr (.inr ⟨owner, rfl, rfl⟩))
    | closed => exact .inl ⟨.inr rfl, rfl⟩

/-- The outcomes of `interruptRecord`. -/
theorem interruptRecord_case (reg : Registry) (record : SubagentRecord) :
    phaseHoldsSlot (reg.recordPhase record) = false ∧
      reg.interruptRecord record = (.unchanged, reg.setMailbox record []) ∨
    (∃ work, reg.recordPhase record = .pending work ∧
      reg.interruptRecord record
        = (.settled, (reg.setMailbox record []).transitionToIdle record .interrupted)) ∨
    (∃ owner, reg.recordPhase record = .running owner ∧
      reg.interruptRecord record
        = (.wait, (reg.setMailbox record []).setPhase record (.interrupting owner))) ∨
    (∃ owner, reg.recordPhase record = .interrupting owner ∧
      reg.interruptRecord record = (.wait, reg.setMailbox record [])) := by
  unfold interruptRecord
  cases hphase : reg.recordPhase record with
  | idle status owner => exact .inl ⟨rfl, rfl⟩
  | pending work => exact .inr (.inl ⟨work, rfl, rfl⟩)
  | running owner => exact .inr (.inr (.inl ⟨owner, rfl, rfl⟩))
  | interrupting owner => exact .inr (.inr (.inr ⟨owner, rfl, rfl⟩))
  | closed => exact .inl ⟨rfl, rfl⟩

/-- Pending work makes room for queued work. -/
def replacePending (reg : Registry) (record : SubagentRecord) (next : Work) (rest : List Work) :
    Registry :=
  ((({ reg.releaseSlot record with
    registryLiveCount := (reg.releaseSlot record).registryLiveCount + 1 } :
      Registry).setMailbox record rest).setPhase record (.pending next)).publishDirectUpdate record
        .interrupted

/-- The outcomes of the settling transaction of `interruptSubagent`. -/
theorem interruptPending_case (reg : Registry) (record : SubagentRecord) :
    (∃ status turn, reg.recordPhase record = .idle status turn ∧
      reg.interruptPending record = (true, (reg.setPhase record
        (.idle .interrupted none)).publishDirectUpdate record .interrupted)) ∨
    (∃ work next rest, reg.recordPhase record = .pending work ∧
      (reg.recordMail record).recordMailbox = next :: rest ∧
      reg.interruptPending record = (true, reg.replacePending record next rest)) ∨
    (∃ work, reg.recordPhase record = .pending work ∧
      reg.interruptPending record = (true, ((reg.releaseSlot record).setPhase record
        (.idle .interrupted work.workRootTurnId)).publishDirectUpdate record .interrupted)) ∨
    reg.interruptPending record = (false, reg) := by
  unfold interruptPending
  split
  · rename_i hphase
    exact .inl ⟨_, _, hphase, rfl⟩
  · rename_i work hphase
    split
    · rename_i next rest hmail
      exact .inr (.inl ⟨work, next, rest, hphase, hmail, rfl⟩)
    · exact .inr (.inr (.inl ⟨work, hphase, rfl⟩))
  · exact .inr (.inr (.inr rfl))

/-! ### What the holder of the lock relies on -/

/-- The others end turns and close records, and abort no root turn. -/
structure Rely (reg reg' : Registry) : Prop where
  closed : ∀ r, reg.recordPhase r = .closed → reg'.recordPhase r = .closed
  slots : ∀ r, phaseHoldsSlot (reg'.recordPhase r) → phaseHoldsSlot (reg.recordPhase r)
  active : ∀ r, (reg'.recordPhase r).isActive → (reg.recordPhase r).isActive
  agents : ∀ r ∈ reg'.registryAgents, r ∈ reg.registryAgents
  aborted : reg'.registryAbortedRootTurns = reg.registryAbortedRootTurns
  nextRef : reg'.nextRef = reg.nextRef

namespace Rely

/-- A move that leaves the phases and the agents alone. -/
theorem of_phase (hphase : reg'.recordPhase = reg.recordPhase)
    (hagents : reg'.registryAgents = reg.registryAgents)
    (haborted : reg'.registryAbortedRootTurns = reg.registryAbortedRootTurns)
    (hnext : reg'.nextRef = reg.nextRef) : Rely reg reg' where
  closed := by
    intro r hr
    rw [hphase, hr]
  slots := by
    intro r hr
    rwa [hphase] at hr
  active := by
    intro r hr
    rwa [hphase] at hr
  agents := by
    intro r hr
    rwa [hagents] at hr
  aborted := haborted
  nextRef := hnext

theorem refl (reg : Registry) : Rely reg reg := of_phase rfl rfl rfl rfl

/-- A move that writes one phase. -/
theorem of_setPhase {phase : SubagentPhase}
    (hphase : reg'.recordPhase = Function.update reg.recordPhase record phase)
    (hagents : ∀ r ∈ reg'.registryAgents, r ∈ reg.registryAgents)
    (haborted : reg'.registryAbortedRootTurns = reg.registryAbortedRootTurns)
    (hnext : reg'.nextRef = reg.nextRef)
    (hclosed : reg.recordPhase record = .closed → phase = .closed)
    (hslot : phaseHoldsSlot phase → phaseHoldsSlot (reg.recordPhase record))
    (hactive : phase.isActive → (reg.recordPhase record).isActive) : Rely reg reg' where
  closed := by
    intro r hr
    rw [hphase]
    by_cases h : r = record
    · subst h
      rw [update_self]
      exact hclosed hr
    · rwa [update_of_ne h]
  slots := by
    intro r hr
    rw [hphase] at hr
    by_cases h : r = record
    · subst h
      rw [update_self] at hr
      exact hslot hr
    · rwa [update_of_ne h] at hr
  active := by
    intro r hr
    rw [hphase] at hr
    by_cases h : r = record
    · subst h
      rw [update_self] at hr
      exact hactive hr
    · rwa [update_of_ne h] at hr
  agents := hagents
  aborted := haborted
  nextRef := hnext

end Rely

theorem takeStartedWork_rely {taken : Option Work × Registry}
    (h : reg.takeStartedWork record = some taken) : Rely reg taken.2 := by
  obtain ⟨-, rfl⟩ | ⟨work, hphase, rfl⟩ := takeStartedWork_case h
  · exact .refl reg
  · refine .of_setPhase rfl (fun _ h => h) rfl rfl ?_ ?_ ?_
    all_goals simp [hphase, phaseHoldsSlot, SubagentPhase.isActive]

variable {step : SupervisorStep}

theorem StepCase.rely (h : StepCase reg record status step reg') :
    Rely reg reg' := by
  cases h with
  | stop => exact .of_phase rfl rfl rfl rfl
  | rest | complete => exact .refl reg
  | interrupted hphase | message hphase | settle hphase =>
    refine .of_setPhase rfl (fun _ h => h) rfl rfl ?_ ?_ ?_
    all_goals simp [hphase, phaseHoldsSlot, SubagentPhase.isActive]

theorem StepCase.agents (h : StepCase reg record status step reg') :
    reg'.registryAgents = reg.registryAgents := by
  cases h <;> rfl

theorem StepCase.cancel (h : StepCase reg record status step reg') :
    reg'.recordCancel = reg.recordCancel := by
  cases h <;> rfl

/-- The work a step hands out was due to an active record, which now runs for it. -/
theorem StepCase.active_of_message {work : Work}
    (h : StepCase reg record status step reg') (hstep : step = .message work) :
    (reg.recordPhase record).isActive ∧
      reg'.recordPhase record = .running work.workRootTurnId := by
  cases h with
  | message hphase =>
    cases hstep
    refine ⟨by rw [hphase]; rfl, ?_⟩
    simp [setPhase]
  | _ => cases hstep

theorem publishCompletion_rely (reg : Registry) (record : SubagentRecord) (status : SubagentStatus)
    (metadata : Option InterAgentMessageMetadata) :
    Rely reg (reg.publishCompletion record status metadata).2 := by
  obtain ⟨mail, hmail⟩ := publishCompletion_mail reg record status metadata
  rw [hmail]
  exact .of_phase rfl rfl rfl rfl

/-- What one move of a supervisor can do to the registry. -/
inductive SupervisorEffect (reg : Registry) (thread : SupervisorThread) :
    SupervisorEvent → Registry → Prop
  | take {taken : Option Work × Registry} (h : reg.takeStartedWork thread.owner = some taken) :
      SupervisorEffect reg thread .take taken.2
  | reset {work : Work} (hpc : thread.pc = .starting work) :
      SupervisorEffect reg thread .reset (reg.resetCancel thread.owner)
  | step {work : Work} {status : SubagentStatus} {step : SupervisorStep} {reg' : Registry}
      (hpc : thread.pc = .stepping work status) (h : StepCase reg thread.owner status step reg') :
      SupervisorEffect reg thread .step reg'
  | publish {work : Work} {status : SubagentStatus} (hpc : thread.pc = .completing work status) :
      SupervisorEffect reg thread .publish
        (reg.publishCompletion thread.owner status (completionMetadata work)).2
  | finish {work : Work} {status : SubagentStatus} {next : SupervisorStep × Registry}
      (hpc : thread.pc = .settling work status)
      (h : reg.finishSupervisorStep thread.owner status = some next) :
      SupervisorEffect reg thread .finish next.2
  | acquire {inputs : InputQueueState TurnInput} {record : SubagentRecord} {mail : Mail Unit}
      (hmail : (reg.recordMail record).acquire inputs = some mail) :
      SupervisorEffect reg thread (.acquireSteering inputs) (reg.setMail record mail)
  | release (record : SubagentRecord) :
      SupervisorEffect reg thread .releaseSteering
        (reg.setMail record ((reg.recordMail record).release
          (reg.recordPhase record = .closed) reg.registryAbortedRootTurns))
  /-- The run changes the steering it has open, and adds no work to it. -/
  | steer {event : SupervisorEvent} {record : SubagentRecord}
      {steering next : SubagentSteering Unit}
      (hsteering : (reg.recordMail record).recordSteering = some steering)
      (hwork : ∀ work ∈ next.steeringWork, work ∈ steering.steeringWork) :
      SupervisorEffect reg thread event
        (reg.setMail record { reg.recordMail record with recordSteering := some next })
  /-- The others drop requested suspensions at most. -/
  | other {event : SupervisorEvent} (suspensions : SubagentId → Option (UTCTime × Text)) :
      SupervisorEffect reg thread event { reg with registrySuspensions := suspensions }

namespace SupervisorEffect

variable {thread : SupervisorThread} {event : SupervisorEvent}

theorem agents (h : SupervisorEffect reg thread event reg') :
    reg'.registryAgents = reg.registryAgents := by
  cases h with
  | take h => obtain ⟨-, rfl⟩ | ⟨work, -, rfl⟩ := takeStartedWork_case h <;> rfl
  | step hpc h => exact h.agents
  | finish hpc h => exact (finishSupervisorStep_case h).agents
  | publish hpc =>
    obtain ⟨mail, hmail⟩ := publishCompletion_mail reg thread.owner _ _
    rw [hmail]
    rfl
  | _ => rfl

/-- Supervisors keep what the holder of the lock relies on. -/
theorem rely (h : SupervisorEffect reg thread event reg') : Rely reg reg' := by
  cases h with
  | take h => exact takeStartedWork_rely h
  | step hpc h => exact h.rely
  | finish hpc h => exact (finishSupervisorStep_case h).rely
  | publish hpc => exact publishCompletion_rely _ _ _ _
  | _ => exact .of_phase rfl rfl rfl rfl

end SupervisorEffect

theorem closeRecord_rely (reg : Registry) (record : SubagentRecord) :
    Rely reg (reg.closeRecord record) := by
  refine .of_setPhase rfl (fun _ h => h) rfl rfl (fun _ => rfl) ?_ ?_
  all_goals simp [phaseHoldsSlot, SubagentPhase.isActive]

theorem interruptPending_rely (reg : Registry) (record : SubagentRecord) :
    Rely reg (reg.interruptPending record).2 := by
  obtain ⟨status, turn, hphase, heq⟩ | ⟨work, next, rest, hphase, -, heq⟩ | ⟨work, hphase, heq⟩ |
    heq := interruptPending_case reg record
  all_goals rw [heq]
  pick_goal 4
  · exact .refl reg
  all_goals
    refine .of_setPhase rfl (fun _ h => h) rfl rfl ?_ ?_ ?_
    all_goals simp [hphase, phaseHoldsSlot, SubagentPhase.isActive]

theorem rollbackAdmission_rely (reg : Registry) (record : SubagentRecord) :
    Rely reg (reg.rollbackAdmission record) := by
  refine .of_setPhase rfl (fun r hr => (KeyedList.mem_delete.mp hr).1) rfl rfl (fun _ => rfl) ?_ ?_
  all_goals simp [phaseHoldsSlot, SubagentPhase.isActive]

end Registry

open Registry

variable {reg reg' : Registry} {record : SubagentRecord} {stopped : ℕ → Bool}

/-! ### The threads without the lock -/

theorem JoinPc.step_rely {pc : JoinPc} {next : JoinPc × Registry}
    (h : pc.step reg stopped record = some next) : Rely reg next.2 := by
  cases pc with
  | taking =>
    cases h
    exact .of_phase rfl rfl rfl rfl
  | joining sid =>
    simp only [JoinPc.step] at h
    split at h
    · cases h
      exact .refl reg
    · cases h
  | joined => cases h

theorem ShutdownPc.step_rely {pc : ShutdownPc} {next : ShutdownPc × Registry}
    (h : pc.step reg stopped record = some next) : Rely reg next.2 := by
  unfold ShutdownPc.step at h
  split at h
  · cases h
    exact .of_phase rfl rfl rfl rfl
  · cases h
    exact closeRecord_rely reg record
  · cases h
    exact .of_phase rfl rfl rfl rfl
  · obtain ⟨join, hjoin, rfl⟩ := map_eq_some_iff.mp h
    exact JoinPc.step_rely hjoin
  · cases h

theorem RollbackPc.step_rely {pc : RollbackPc} {next : RollbackPc × Registry}
    (h : pc.step reg stopped record = some next) : Rely reg next.2 := by
  unfold RollbackPc.step at h
  split at h
  · cases h
    exact rollbackAdmission_rely reg record
  · obtain ⟨join, hjoin, rfl⟩ := map_eq_some_iff.mp h
    exact JoinPc.step_rely hjoin

theorem JoinPc.step_agents {pc : JoinPc} {next : JoinPc × Registry}
    (h : pc.step reg stopped record = some next) :
    next.2.registryAgents = reg.registryAgents := by
  cases pc with
  | taking =>
    cases h
    rfl
  | joining sid =>
    simp only [JoinPc.step] at h
    split at h
    · cases h
      rfl
    · cases h
  | joined => cases h

theorem ShutdownPc.step_agents {pc : ShutdownPc} {next : ShutdownPc × Registry}
    (h : pc.step reg stopped record = some next) :
    next.2.registryAgents = reg.registryAgents := by
  unfold ShutdownPc.step at h
  split at h
  · cases h
    rfl
  · cases h
    rfl
  · cases h
    rfl
  · obtain ⟨join, hjoin, rfl⟩ := map_eq_some_iff.mp h
    exact JoinPc.step_agents hjoin
  · cases h

namespace RegistryWorld

variable {w w' : RegistryWorld}

variable {thread : SupervisorThread}

theorem onMail_eq {f : SubagentSteering Unit → Option (SubagentSteering Unit)}
    (h : w.onMail thread f = some w') :
    ∃ record steering next, thread.attached = some record ∧
      (w.registry.recordMail record).recordSteering = some steering ∧ f steering = some next ∧
      w' = { w with
        registry := w.registry.setMail record
          { w.registry.recordMail record with recordSteering := some next } } := by
  simp only [onMail, bind_eq_bind, bind_eq_some_iff] at h
  obtain ⟨record, hrecord, steering, hsteering, next, hnext, h⟩ := h
  exact ⟨record, steering, next, hrecord, hsteering, hnext, (some.inj h).symm⟩

variable {event : SupervisorEvent}

/-- What one move of a supervisor does to its thread: where it begins to wait for the lock, where it
takes up work, and when the mark of an interrupter stays. -/
structure ThreadMove (reg reg' : Registry) (event : SupervisorEvent)
    (thread next : SupervisorThread) : Prop where
  owner : next.owner = thread.owner
  committing : ∀ work result, next.pc = .committing work result →
    next.pc = thread.pc ∨ ∃ returned, event = .returned returned ∧ returned.commits
  starting : ∀ work, next.pc = .starting work →
    next.pc = thread.pc ∨ (reg.recordPhase thread.owner).isActive ∧
      reg'.recordPhase thread.owner = .running work.workRootTurnId
  requested : next.requested → thread.requested ∧
    ∀ work, thread.pc = .running work → next.pc = thread.pc
  status : thread.pc.StatusFinal → next.pc.StatusFinal
  settling : thread.pc.isSettling → next.pc.isSettling ∨ event = .finish ∨ event = .kill

/-- A move that leaves the program counter alone. -/
theorem ThreadMove.same {next : SupervisorThread} (howner : next.owner = thread.owner)
    (hpc : next.pc = thread.pc) (hrequested : next.requested = thread.requested) :
    ThreadMove reg reg' event thread next where
  owner := howner
  committing := fun _ _ _ => .inl hpc
  starting := fun _ _ => .inl hpc
  requested := fun h => ⟨hrequested ▸ h, fun _ _ => hpc⟩
  status := fun h => hpc ▸ h
  settling := fun h => .inl (hpc ▸ h)

/-- A move between the program counters that the invariants look at. -/
theorem ThreadMove.goto {pc : SupervisorPc} {ready : Option Bool} {attached : Option SubagentRecord}
    (hrunning : ∀ work, thread.pc ≠ .running work)
    (hcommitting : ∀ work result, pc ≠ .committing work result)
    (hstarting : ∀ work, pc = .starting work → (reg.recordPhase thread.owner).isActive ∧
      reg'.recordPhase thread.owner = .running work.workRootTurnId)
    (hstatus : thread.pc.StatusFinal → pc.StatusFinal)
    (hsettling : thread.pc.isSettling → pc.isSettling ∨ event = .finish ∨ event = .kill) :
    ThreadMove reg reg' event thread
      { thread with pc := pc, ready := ready, attached := attached } where
  owner := rfl
  committing := fun work result h => absurd h (hcommitting work result)
  starting := fun work h => .inr (hstarting work h)
  requested := fun h => ⟨h, fun work hrun => absurd hrun (hrunning work)⟩
  status := hstatus
  settling := hsettling

/-- A move that leaves the run. -/
theorem ThreadMove.leave {pc : SupervisorPc}
    (hcommitting : ∀ work result, pc = .committing work result →
      ∃ returned, event = .returned returned ∧ returned.commits)
    (hstarting : ∀ work, pc ≠ .starting work) (hstatus : pc.StatusFinal)
    (hsettling : thread.pc.isSettling → event = .kill) :
    ThreadMove reg reg' event thread { thread with pc := pc, requested := false } where
  owner := rfl
  committing := fun work result h => .inr (hcommitting work result h)
  starting := fun work h => absurd h (hstarting work)
  requested := fun h => nomatch h
  status := fun _ => hstatus
  settling := fun h => .inr (.inr (hsettling h))

/-- What a supervisor leaves alone: the spawns, the aborted turns, the waits, except where it
publishes, and the holder of the lock, unless it is the holder. -/
structure SupervisorFrame (sid : ℕ) (event : SupervisorEvent) (w w' : RegistryWorld) : Prop where
  spawns : w'.spawns = w.spawns
  abortReturned : w'.abortReturned = w.abortReturned
  waits : event ≠ .publish → w'.waits = w.waits
  lifecycle : w'.lifecycle = w.lifecycle ∨ w'.lifecycle = none ∨
    ∃ request, w.lifecycle = none ∧ w'.lifecycle = some (.commit sid request)

/-- One move of a supervisor: what it does to the registry, to its thread, and to nothing else. -/
theorem supervise_case {sid : ℕ} (hget : w.supervisors[sid]? = some thread)
    (h : w.supervise sid thread event = some w') :
    SupervisorEffect w.registry thread event w'.registry ∧
      (∃ next, w'.supervisors = w.supervisors.set sid next ∧
        ThreadMove w.registry w'.registry event thread next) ∧
      SupervisorFrame sid event w w' := by
  -- moves that only touch mail write the thread back as it was
  have hself : w.supervisors = w.supervisors.set sid thread := by
    obtain ⟨hlt, hthread⟩ := List.getElem?_eq_some_iff.mp hget
    rw [← hthread, set_getElem_self]
  cases event with
  | take =>
    simp only [supervise] at h
    split at h
    · rename_i hpc
      obtain ⟨taken, htaken, rfl⟩ := map_eq_some_iff.mp h
      refine ⟨.take htaken, ?_, rfl, rfl, fun _ => rfl, .inl rfl⟩
      obtain ⟨-, rfl⟩ | ⟨work, hphase, rfl⟩ := takeStartedWork_case htaken
      · exact ⟨_, rfl, .goto (by simp [hpc]) (by simp) (by simp) (fun _ => trivial)
          (by simp [hpc, SupervisorPc.isSettling])⟩
      · refine ⟨_, rfl, .goto (by simp [hpc]) (by simp) ?_ (fun _ => trivial)
          (by simp [hpc, SupervisorPc.isSettling])⟩
        rintro started ⟨⟩
        refine ⟨by rw [hphase]; rfl, ?_⟩
        simp [setSupervisor, setPhase]
    · cases h
  | step =>
    simp only [supervise] at h
    split at h
    · rename_i work status hpc
      obtain ⟨next, hnext, rfl⟩ := map_eq_some_iff.mp h
      have hcase : StepCase w.registry thread.owner status next.1 next.2 := by
        split at hnext
        · exact supervisorStepWithoutMailbox_case hnext
        · exact nextSupervisorStep_case hnext
      refine ⟨.step hpc hcase, ⟨_, rfl, .goto (by simp [hpc]) ?_ ?_ ?_
        (by simp [hpc, SupervisorPc.isSettling])⟩, rfl, rfl, fun _ => rfl, .inl rfl⟩
      · cases next.1 <;> simp [afterStep]
      · intro started hstarted
        have hmessage : next.1 = .message started := by
          revert hstarted
          cases next.1 <;> simp [afterStep]
        exact hcase.active_of_message hmessage
      · rw [hpc]
        intro hfinal
        cases next.1 with
        | complete => exact hfinal
        | _ => trivial
    · cases h
  | finish =>
    simp only [supervise] at h
    split at h
    · rename_i work status hpc
      obtain ⟨next, hnext, rfl⟩ := map_eq_some_iff.mp h
      have hcase := finishSupervisorStep_case hnext
      refine ⟨.finish hpc hnext, ⟨_, rfl, .goto (by simp [hpc]) ?_ ?_ ?_ fun _ => .inr (.inl rfl)⟩,
        rfl, rfl, fun _ => rfl, .inl rfl⟩
      · cases next.1 <;> simp [afterFinish]
      · intro started hstarted
        have hmessage : next.1 = .message started := by
          revert hstarted
          cases next.1 <;> simp [afterFinish]
        exact hcase.active_of_message hmessage
      · intro _
        cases next.1 <;> trivial
    · cases h
  -- the run is left here, so the mark of the interrupter goes
  | cancelled =>
    simp only [supervise] at h
    repeat' split at h
    all_goals first
      | cases h; exact ⟨.other _, ⟨_, rfl, .leave (by simp) (by simp) trivial
          (by simp [*, SupervisorPc.isSettling])⟩, rfl, rfl, fun _ => rfl, .inl rfl⟩
      | cases h
  | returned result =>
    simp only [supervise] at h
    split at h
    -- only a result the step function names goes through the commit, and so for the lock
    · rename_i hrunning
      split at h
      · cases h
        refine ⟨.other _, ⟨_, rfl, .leave (fun work _ hpc => ⟨result, rfl, ?_⟩) ?_ ?_
          (by simp [hrunning, SupervisorPc.isSettling])⟩, rfl, rfl, fun _ => rfl, .inl rfl⟩
        · split at hpc
          · assumption
          · cases hpc
        · intro work
          split <;> simp
        · split <;> trivial
      · cases h
    · cases h
  | kill =>
    simp only [supervise] at h
    split at h
    · cases h
      refine ⟨.other _, ⟨_, rfl, .leave (by simp) (by simp) trivial fun _ => rfl⟩, rfl, rfl,
        fun _ => rfl, ?_⟩
      dsimp only
      split
      · exact .inr (.inl rfl)
      · exact .inl rfl
    · cases h
  | acquireSteering inputs =>
    simp only [supervise] at h
    split at h
    · simp only [bind_eq_bind, bind_eq_some_iff] at h
      obtain ⟨record, -, mail, hmail, h⟩ := h
      cases h
      exact ⟨.acquire hmail, ⟨_, rfl, .same rfl rfl rfl⟩, rfl, rfl, fun _ => rfl, .inl rfl⟩
    · cases h
  | releaseSteering =>
    simp only [supervise] at h
    split at h
    · cases h
      exact ⟨.release _, ⟨_, rfl, .same rfl rfl rfl⟩, rfl, rfl, fun _ => rfl, .inl rfl⟩
    · cases h
  | acknowledge messages count =>
    obtain ⟨record, steering, next, -, hsteering, hnext, rfl⟩ := onMail_eq h
    refine ⟨.steer hsteering fun work hwork => ?_, ⟨_, hself, .same rfl rfl rfl⟩, rfl, rfl,
      fun _ => rfl, .inl rfl⟩
    unfold SubagentSteering.acknowledge at hnext
    split at hnext
    · cases hnext
    · cases hnext
      exact mem_of_mem_drop hwork
  | loop inputs =>
    obtain ⟨record, steering, next, -, hsteering, hnext, rfl⟩ := onMail_eq h
    cases hnext
    exact ⟨.steer hsteering fun work hwork => hwork, ⟨_, hself, .same rfl rfl rfl⟩, rfl, rfl,
      fun _ => rfl, .inl rfl⟩
  | lease ok =>
    simp only [supervise] at h
    split at h
    · rename_i hpc
      cases h
      refine ⟨.other _, ⟨_, rfl, .goto (by simp [hpc]) ?_ ?_ ?_
        (by simp [hpc, SupervisorPc.isSettling])⟩, rfl, rfl, fun _ => rfl, .inl rfl⟩
      all_goals cases ok <;> simp [SupervisorPc.StatusFinal]
    · cases h
  -- the moves left go from one program counter to the next
  | _ =>
    simp only [supervise] at h
    repeat' split at h
    all_goals first
      | cases h
        refine ⟨by first | exact .reset ‹_› | exact .publish ‹_› | exact .other _,
          ⟨_, rfl, .goto (by simp [*]) (by simp) (by simp)
            (by simp [*, SupervisorPc.StatusFinal, settledStatus_final])
            (by simp [*, SupervisorPc.isSettling])⟩,
          rfl, rfl, by simp [setSupervisor], by
            first
              | exact .inl rfl
              | exact .inr (.inl rfl)
              | exact .inr (.inr ⟨_, ‹_›, rfl⟩)⟩
      | cases h

/-- Spawns keep it. -/
theorem spawnStep_rely {tid : ℕ} {thread : SpawnThread} {event : SpawnEvent}
    (h : w.spawnStep tid thread event = some w') : Rely w.registry w'.registry := by
  cases event with
  | proceed =>
    simp only [spawnStep] at h
    split at h
    · cases h
      exact .refl _
    · obtain ⟨next, hnext, rfl⟩ := map_eq_some_iff.mp h
      exact ShutdownPc.step_rely hnext
    · cases h
      exact .refl _
    · obtain ⟨next, hnext, rfl⟩ := map_eq_some_iff.mp h
      exact RollbackPc.step_rely hnext
    · cases h
  | _ =>
    simp only [spawnStep] at h
    split at h
    all_goals first
      | cases h; exact .refl _
      | cases h

/-- A spawn moves no other thread, and may take the lock. -/
theorem spawnStep_frame {tid : ℕ} {thread : SpawnThread} {event : SpawnEvent}
    (h : w.spawnStep tid thread event = some w') :
    (w'.supervisors = w.supervisors ∧ w'.waits = w.waits ∧ w'.abortReturned = w.abortReturned) ∧
      (∃ pc, w'.spawns = w.setSpawn tid pc) ∧
      (w'.lifecycle = w.lifecycle ∨
        w.lifecycle = none ∧ w'.lifecycle = some (.startCheck thread.record (.spawn tid))) := by
  cases event with
  | proceed =>
    simp only [spawnStep] at h
    split at h
    · cases h
      exact ⟨⟨rfl, rfl, rfl⟩, ⟨_, rfl⟩, .inl rfl⟩
    · obtain ⟨next, -, rfl⟩ := map_eq_some_iff.mp h
      exact ⟨⟨rfl, rfl, rfl⟩, ⟨_, rfl⟩, .inl rfl⟩
    · cases h
      exact ⟨⟨rfl, rfl, rfl⟩, ⟨_, rfl⟩, .inl rfl⟩
    · obtain ⟨next, -, rfl⟩ := map_eq_some_iff.mp h
      exact ⟨⟨rfl, rfl, rfl⟩, ⟨_, rfl⟩, .inl rfl⟩
    · cases h
  | start =>
    simp only [spawnStep] at h
    split at h
    · rename_i hlock
      cases h
      exact ⟨⟨rfl, rfl, rfl⟩, ⟨_, rfl⟩, .inr ⟨hlock, rfl⟩⟩
    · cases h
  | _ =>
    simp only [spawnStep] at h
    split at h
    all_goals first
      | cases h; exact ⟨⟨rfl, rfl, rfl⟩, ⟨_, rfl⟩, .inl rfl⟩
      | cases h

variable {event : RegistryEvent} {record : SubagentRecord} {thread : WaitThread} {op : LockedOp}

/-- A wait writes its cursor and its registration only. -/
theorem waitStep_registry {wid : ℕ} {event : WaitEvent}
    (h : w.waitStep wid thread event = some w') :
    ∃ cursors waits, w'.registry = { w.registry with
      registryWaitCursors := cursors, registryActiveWaits := waits } := by
  cases event with
  | select rootReady =>
    simp only [waitStep] at h
    split at h
    · split at h
      · cases h
        exact ⟨_, _, rfl⟩
      · cases h
    · split at h
      · rename_i statuses taken htaken
        cases h
        unfold takeAgentUpdates at htaken
        split at htaken
        · cases htaken
        · cases htaken
          exact ⟨_, _, rfl⟩
      · split at h
        · cases h
          exact ⟨_, _, rfl⟩
        · cases h
    · cases h
  | _ =>
    simp only [waitStep] at h
    split at h
    all_goals first
      | cases h; exact ⟨_, _, rfl⟩
      | cases h

/-- A wait moves no other thread. -/
theorem waitStep_frame {wid : ℕ} {event : WaitEvent}
    (h : w.waitStep wid thread event = some w') :
    w'.lifecycle = w.lifecycle ∧ w'.supervisors = w.supervisors ∧ w'.spawns = w.spawns ∧
      w'.abortReturned = w.abortReturned := by
  cases event with
  | select rootReady =>
    simp only [waitStep] at h
    repeat' split at h
    all_goals first
      | cases h; exact ⟨rfl, rfl, rfl, rfl⟩
      | cases h
  | _ =>
    simp only [waitStep] at h
    split at h
    all_goals first
      | cases h; exact ⟨rfl, rfl, rfl, rfl⟩
      | cases h

/-- Waits keep it. -/
theorem waitStep_rely {wid : ℕ} {event : WaitEvent}
    (h : w.waitStep wid thread event = some w') : Rely w.registry w'.registry := by
  obtain ⟨cursors, waits, hreg⟩ := waitStep_registry h
  rw [hreg]
  exact .of_phase rfl rfl rfl rfl

/-! ### Starting a supervisor -/

/-- What is left when `startRecordSupervisor` is over: a spawn is sent on, or the lock is free, or
the restore that called it closes or withdraws its record. -/
inductive StartEnd (w : RegistryWorld) (record : SubagentRecord) :
    StartCaller → RegistryWorld → Prop
  | spawn {tid : ℕ} {pc : SpawnPc}
      (hpc : pc = .leaving ∨ pc = .rollingBack .deleting false ∨ pc = .shutting .cancelling) :
      StartEnd w record (.spawn tid) { w with lifecycle := none, spawns := w.setSpawn tid pc }
  | released {caller : StartCaller} : StartEnd w record caller { w with lifecycle := none }
  | failed :
      StartEnd w record .restoreExisting { w with lifecycle := some (.restoreFailed record) }
  | rollback : StartEnd w record .restoreMissing
      { w with lifecycle := some (.restoreRollback record .deleting) }

variable {caller : StartCaller}

theorem startFailed_end (w : RegistryWorld) (record : SubagentRecord) (caller : StartCaller) :
    StartEnd w record caller (w.startFailed record caller) := by
  cases caller with
  | spawn tid => exact .spawn (.inr (.inl rfl))
  | restoreExisting => exact .failed
  | restoreMissing => exact .rollback

theorem startThrown_end (w : RegistryWorld) (record : SubagentRecord) (caller : StartCaller) :
    StartEnd w record caller (w.startThrown caller) := by
  cases caller with
  | spawn tid => exact .spawn (.inr (.inr rfl))
  | _ => exact .released

theorem startSucceeded_end (w : RegistryWorld) (record : SubagentRecord) (caller : StartCaller) :
    StartEnd w record caller (w.startSucceeded caller) := by
  cases caller with
  | spawn tid => exact .spawn (.inl rfl)
  | _ => exact .released

theorem StartEnd.frame (h : StartEnd w record caller w') :
    w'.registry = w.registry ∧ w'.supervisors = w.supervisors ∧ w'.waits = w.waits ∧
      w'.abortReturned = w.abortReturned := by
  cases h <;> exact ⟨rfl, rfl, rfl, rfl⟩

theorem StartEnd.lifecycle_ne {kind : InterruptKind} {records : List SubagentRecord}
    {pc : SubagentRecord → InterruptPc} (h : StartEnd w record caller w') :
    w'.lifecycle ≠ some (.interrupting kind records pc) := by
  cases h <;> simp

/-- What a move of `startRecordSupervisor` does, or of the rollback of `restoreMissing`. -/
inductive StartMove (w : RegistryWorld) : LockedOp → RegistryWorld → Prop
  | ended {op : LockedOp} {record : SubagentRecord} {caller : StartCaller} {w' : RegistryWorld}
      (hop : op = .startCheck record caller ∨ op = .startThread record caller ∨
        (∃ sid, op = .startWait record sid caller) ∨
        ∃ join thrown, op = .startStop record join caller thrown)
      (hend : StartEnd w record caller w') : StartMove w op w'
  | checked {record : SubagentRecord} {caller : StartCaller} :
      StartMove w (.startCheck record caller)
        { w with lifecycle := some (.startThread record caller) }
  | started {record : SubagentRecord} {caller : StartCaller} :
      StartMove w (.startThread record caller) { w with
        registry := { w.registry with
          recordAsync := Function.update w.registry.recordAsync record (some w.supervisors.length) }
        supervisors := w.supervisors ++
          [{ owner := record, pc := .leasing, ready := none, attached := none,
             requested := false }]
        lifecycle := some (.startWait record w.supervisors.length caller) }
  | refused {record : SubagentRecord} {sid : ℕ} {caller : StartCaller} :
      StartMove w (.startWait record sid caller)
        { w with lifecycle := some (.startStop record .taking caller false) }
  | joined {record : SubagentRecord} {join : JoinPc} {caller : StartCaller} {thrown : Bool}
      {next : JoinPc × Registry} (hnext : join.step w.registry w.hasStopped record = some next) :
      StartMove w (.startStop record join caller thrown) { w with
        registry := next.2, lifecycle := some (.startStop record next.1 caller thrown) }
  | rolledBack {record : SubagentRecord} :
      StartMove w (.restoreRollback record (.stopping .joined)) { w with lifecycle := none }
  | rollback {record : SubagentRecord} {pc : RollbackPc} {next : RollbackPc × Registry}
      (hnext : pc.step w.registry w.hasStopped record = some next) :
      StartMove w (.restoreRollback record pc)
        { w with registry := next.2, lifecycle := some (.restoreRollback record next.1) }

theorem startStep_case {ok : Bool} (h : w.startStep ok op = some w') : StartMove w op w' := by
  unfold startStep at h
  split at h
  · split at h
    · cases h
      exact .ended (.inl rfl) (startFailed_end w _ _)
    · cases h
      exact .checked
  · split at h
    · cases h
      exact .started
    · cases h
      exact .ended (.inr (.inl rfl)) (startFailed_end w _ _)
  · split at h
    · cases h
      exact .ended (.inr (.inr (.inl ⟨_, rfl⟩))) (startSucceeded_end w _ _)
    · cases h
      exact .refused
    · cases h
  · cases h
    refine .ended (.inr (.inr (.inr ⟨_, _, rfl⟩))) ?_
    split
    · exact startThrown_end w _ _
    · exact startFailed_end w _ _
  · obtain ⟨next, hnext, rfl⟩ := map_eq_some_iff.mp h
    exact .joined hnext
  · cases h
    exact .rolledBack
  · obtain ⟨next, hnext, rfl⟩ := map_eq_some_iff.mp h
    exact .rollback hnext
  · cases h

/-- A start moves no wait and aborts no turn. -/
theorem startStep_frame {ok : Bool} (h : w.startStep ok op = some w') :
    w'.waits = w.waits ∧ w'.abortReturned = w.abortReturned := by
  cases startStep_case h with
  | ended hop hend => exact hend.frame.2.2
  | _ => exact ⟨rfl, rfl⟩

/-- An exception of the holder moves no supervisor and no wait, and aborts no turn. -/
theorem abandonStep_frame (h : w.abandonStep op = some w') :
    w'.supervisors = w.supervisors ∧ w'.waits = w.waits ∧ w'.abortReturned = w.abortReturned := by
  unfold abandonStep at h
  split at h
  · cases h
  all_goals
    cases h
    first
      | exact ⟨rfl, rfl, rfl⟩
      | exact (startThrown_end w ‹_› _).frame.2

/-- The end of an operation on several records only releases the lock. -/
theorem concludeStep_frame (h : w.concludeStep op = some w') :
    w'.lifecycle = none ∧ w'.supervisors = w.supervisors ∧ w'.spawns = w.spawns ∧
      w'.waits = w.waits := by
  unfold concludeStep at h
  repeat' split at h
  all_goals first
    | cases h; exact ⟨rfl, rfl, rfl, rfl⟩
    | cases h

/-! ### The interrupters -/

/-- A mark ends turns, too. -/
theorem mark_rely (w : RegistryWorld) (kind : InterruptKind) (record : SubagentRecord) :
    Rely w.registry (w.mark kind record).2 := by
  cases kind with
  | abortTurn turn =>
    simp only [mark]
    obtain ⟨-, heq⟩ | ⟨work, hphase, heq⟩ | ⟨owner, hphase, heq⟩ | ⟨owner, -, heq⟩ :=
      interruptRecordForTurn_case w.registry turn record
    all_goals rw [heq]
    · exact .refl _
    pick_goal 3
    · exact .refl _
    all_goals
      refine .of_setPhase rfl (fun _ h => h) rfl rfl ?_ ?_ ?_
      all_goals simp [hphase, phaseHoldsSlot, SubagentPhase.isActive]
  -- as for a turn, with the mailbox flushed first, which the holder does not look at
  | active wasClosed =>
    simp only [mark]
    obtain ⟨-, heq⟩ | ⟨work, hphase, heq⟩ | ⟨owner, hphase, heq⟩ | ⟨owner, -, heq⟩ :=
      interruptRecord_case w.registry record
    all_goals rw [heq]
    · exact .of_phase rfl rfl rfl rfl
    pick_goal 3
    · exact .of_phase rfl rfl rfl rfl
    all_goals
      refine .of_setPhase rfl (fun _ h => h) rfl rfl ?_ ?_ ?_
      all_goals simp [hphase, phaseHoldsSlot, SubagentPhase.isActive]

theorem mark_agents (w : RegistryWorld) (kind : InterruptKind) (record : SubagentRecord) :
    (w.mark kind record).2.registryAgents = w.registry.registryAgents := by
  cases kind with
  | abortTurn turn =>
    simp only [mark]
    obtain ⟨-, heq⟩ | ⟨work, -, heq⟩ | ⟨owner, -, heq⟩ | ⟨owner, -, heq⟩ :=
      interruptRecordForTurn_case w.registry turn record
    all_goals simp only [heq, setPhase, releaseSlot]
  | active wasClosed =>
    simp only [mark]
    obtain ⟨-, heq⟩ | ⟨work, -, heq⟩ | ⟨owner, -, heq⟩ | ⟨owner, -, heq⟩ :=
      interruptRecord_case w.registry record
    all_goals
      rw [heq]
      rfl

variable {kind : InterruptKind}

/-- A record that is marked and waited for is interrupting. -/
theorem mark_wait (h : (w.mark kind record).1 = .wait) :
    ∃ owner, (w.mark kind record).2.recordPhase record = .interrupting owner := by
  cases kind with
  | abortTurn turn =>
    simp only [mark] at h ⊢
    obtain ⟨-, heq⟩ | ⟨work, -, heq⟩ | ⟨owner, -, heq⟩ | ⟨owner, hphase, heq⟩ :=
      interruptRecordForTurn_case w.registry turn record
    all_goals rw [heq] at h ⊢
    · cases h
    · cases h
    -- a running record is marked here, one that was interrupting stays so
    · exact ⟨owner, by simp [setPhase]⟩
    · exact ⟨owner, hphase⟩
  | active wasClosed =>
    simp only [mark] at h ⊢
    obtain ⟨-, heq⟩ | ⟨work, -, heq⟩ | ⟨owner, -, heq⟩ | ⟨owner, hphase, heq⟩ :=
      interruptRecord_case w.registry record
    all_goals rw [heq] at h ⊢
    · cases h
    · cases h
    · exact ⟨owner, by simp [setPhase]⟩
    · exact ⟨owner, hphase⟩

variable {records : List SubagentRecord} {pc : SubagentRecord → InterruptPc}

/-- What one move of an interrupter does. -/
theorem interruptStep_case
    (h : w.interruptStep kind records pc record = some w') :
    ∃ next, w'.lifecycle = some (.interrupting kind records (Function.update pc record next)) ∧
      w'.spawns = w.spawns ∧ w'.waits = w.waits ∧ w'.abortReturned = w.abortReturned ∧
      ((pc record = .suspending ∧ next = .marking ∧ w'.supervisors = w.supervisors ∧
          w'.registry = w.registry.cancelSuspension record) ∨
        (pc record = .marking ∧ w'.supervisors = w.supervisors ∧
          next = (if (w.mark kind record).1 = .wait then .cancelling else .finished) ∧
          w'.registry = (w.mark kind record).2) ∨
        (pc record = .cancelling ∧ next = .waiting ∧
          w'.registry = w.registry.requestCancel record ∧
          w'.supervisors = w.supervisors.map fun thread =>
            if thread.owner = record ∧ thread.pc.inRun then { thread with requested := true }
            else thread) ∨
        (pc record = .waiting ∧ next = .finished ∧ w'.supervisors = w.supervisors ∧
          phaseHoldsSlot (w.registry.recordPhase record) = false ∧ w'.registry = w.registry)) := by
  simp only [interruptStep] at h
  split at h
  · rename_i hpc
    cases h
    exact ⟨_, rfl, rfl, rfl, rfl, .inl ⟨hpc, rfl, rfl, rfl⟩⟩
  · rename_i hpc
    cases h
    exact ⟨_, rfl, rfl, rfl, rfl, .inr (.inl ⟨hpc, rfl, rfl, rfl⟩)⟩
  · rename_i hpc
    cases h
    exact ⟨_, rfl, rfl, rfl, rfl, .inr (.inr (.inl ⟨hpc, rfl, rfl, rfl⟩))⟩
  · rename_i hpc
    split at h
    · cases h
    · rename_i hslot
      cases h
      exact ⟨_, rfl, rfl, rfl, rfl,
        .inr (.inr (.inr ⟨hpc, rfl, rfl, Bool.eq_false_iff.mpr hslot, rfl⟩))⟩
  · cases h

theorem interruptStep_rely
    (h : w.interruptStep kind records pc record = some w') : Rely w.registry w'.registry := by
  obtain ⟨next, -, -, -, -, hcase⟩ := interruptStep_case h
  rcases hcase with ⟨-, -, -, hreg⟩ | ⟨-, -, -, hreg⟩ | ⟨-, -, hreg, -⟩ | ⟨-, -, -, -, hreg⟩
  all_goals rw [hreg]
  · exact .of_phase rfl rfl rfl rfl
  · exact mark_rely w kind record
  · exact .of_phase rfl rfl rfl rfl
  · exact .refl _

/-- A move on one of several records moves no spawn and no wait, and aborts no turn. -/
theorem workerStep_frame (h : w.workerStep record op = some w') :
    w'.spawns = w.spawns ∧ w'.waits = w.waits ∧ w'.abortReturned = w.abortReturned := by
  unfold workerStep at h
  split at h
  · split at h
    · obtain ⟨next, -, rfl⟩ := map_eq_some_iff.mp h
      exact ⟨rfl, rfl, rfl⟩
    · cases h
  · split at h
    · obtain ⟨next, -, rfl⟩ := map_eq_some_iff.mp h
      exact ⟨rfl, rfl, rfl⟩
    · cases h
  · split at h
    · obtain ⟨next, -, hspawns, hwaits, hreturned, -⟩ := interruptStep_case h
      exact ⟨hspawns, hwaits, hreturned⟩
    · cases h
  · cases h

/-! ### Where interrupters and supervisors come from -/

theorem afterResume_ne {work : Work} {due : Option DueRun} {ok : Bool} :
    afterResume record work due ok ≠ some (.interrupting kind records pc) := by
  cases due with
  | none => simp [afterResume]
  | some due =>
    simp only [afterResume, map_some]
    split <;> simp

/-- No other operation turns into an interrupter. -/
theorem advance_ne {ok : Bool} {next : Registry × Option LockedOp}
    (h : op.advance reg ok = some next) : next.2 ≠ some (.interrupting kind records pc) := by
  cases op with
  | resumeAdmit | resumePersist | resumeSchedule =>
    simp only [LockedOp.advance] at h
    split at h
    all_goals
      cases h
      first
        | exact afterResume_ne
        | simp
  -- operations with a continuation: each goes on to one of its own stages
  | dueNext now records =>
    cases records with
    | nil =>
      cases h
      simp
    | cons record rest =>
      simp only [LockedOp.advance] at h
      split at h
      all_goals
        cases h
        simp
  | dueRestore record work due =>
    cases h
    cases due <;> simp
  | closeFound record =>
    obtain ⟨below, -, rfl⟩ := map_eq_some_iff.mp h
    simp
  | interruptSettle record =>
    rw [LockedOp.advance, some.injEq] at h
    subst h
    dsimp only
    split <;> simp
  | sendQueue record work interrupt =>
    simp only [LockedOp.advance] at h
    split at h
    all_goals cases h
    · simp
    · cases interrupt <;> simp
  | restoreWrite record request wasClosed =>
    cases h
    cases wasClosed <;> simp
  | _ =>
    simp only [LockedOp.advance] at h
    repeat' split at h
    all_goals first
      | cases h; simp
      | cases h

/-- The interrupter at work after a move was at work before, undisturbed or by the move itself, or
has just begun. -/
theorem interrupting_of_step (h : w.step event = some w')
    (hlock : w'.lifecycle = some (.interrupting kind records pc)) :
    (w.lifecycle = w'.lifecycle ∧ Rely w.registry w'.registry ∧
      w'.abortReturned = w.abortReturned) ∨
    (∃ call, event = .request call ∧ w.lifecycle = none ∧
      w' = { w with
        registry := (beginOp w.registry call).1, lifecycle := (beginOp w.registry call).2 }) ∨
    ∃ r before, event = .worker r ∧ w.lifecycle = some (.interrupting kind records before) ∧
      r ∈ records ∧ w.interruptStep kind records before r = some w' := by
  cases event with
  | supervisor sid event =>
    obtain ⟨thread, hget, h⟩ := bind_eq_some_iff.mp h
    obtain ⟨heffect, -, hframe⟩ := supervise_case hget h
    rcases hframe.lifecycle with hsame | hnone | ⟨request, -, hcommit⟩
    · exact .inl ⟨hsame.symm, heffect.rely, hframe.abortReturned⟩
    · rw [hlock] at hnone
      cases hnone
    · rw [hlock] at hcommit
      cases hcommit
  | spawn request =>
    simp only [step] at h
    split at h
    · cases h
    · rename_i hfree
      split at h
      all_goals
        cases h
        rw [hfree] at hlock
        cases hlock
  | spawned tid event =>
    obtain ⟨thread, -, h⟩ := bind_eq_some_iff.mp h
    obtain ⟨⟨-, -, hreturned⟩, -, hsame | ⟨-, hstart⟩⟩ := spawnStep_frame h
    · exact .inl ⟨hsame.symm, spawnStep_rely h, hreturned⟩
    · rw [hlock] at hstart
      cases hstart
  | request call =>
    simp only [step] at h
    split at h
    · cases h
    · rename_i hfree
      exact .inr (.inl ⟨call, rfl, hfree, (some.inj h).symm⟩)
  | advance ok =>
    obtain ⟨op, -, h⟩ := bind_eq_some_iff.mp h
    obtain ⟨next, hnext, rfl⟩ := map_eq_some_iff.mp h
    exact absurd hlock (advance_ne hnext)
  | start ok =>
    obtain ⟨op, -, h⟩ := bind_eq_some_iff.mp h
    cases startStep_case h with
    | ended hop hend => exact absurd hlock hend.lifecycle_ne
    | _ => cases hlock
  | worker r =>
    obtain ⟨op, hop, h⟩ := bind_eq_some_iff.mp h
    unfold workerStep at h
    split at h
    · split at h
      · obtain ⟨next, -, rfl⟩ := map_eq_some_iff.mp h
        cases hlock
      · cases h
    · split at h
      · obtain ⟨next, -, rfl⟩ := map_eq_some_iff.mp h
        cases hlock
      · cases h
    · rename_i kind' records' before
      split at h
      · rename_i hmem
        obtain ⟨next, hlock', -⟩ := interruptStep_case h
        rw [hlock, some.injEq, LockedOp.interrupting.injEq] at hlock'
        obtain ⟨rfl, rfl, -⟩ := hlock'
        exact .inr (.inr ⟨r, before, rfl, hop, hmem, h⟩)
      · cases h
    · cases h
  | conclude =>
    obtain ⟨op, -, h⟩ := bind_eq_some_iff.mp h
    rw [(concludeStep_frame h).1] at hlock
    cases hlock
  | abandon =>
    obtain ⟨op, -, h⟩ := bind_eq_some_iff.mp h
    unfold abandonStep at h
    split at h
    · cases h
    all_goals
      cases h
      first
        | exact absurd hlock (startThrown_end w ‹_› _).lifecycle_ne
        | cases hlock
        | (dsimp only at hlock; split at hlock <;> cases hlock)
  | wait caller targets =>
    cases h
    exact .inl ⟨rfl, .of_phase rfl rfl rfl rfl, rfl⟩
  | waiting wid event =>
    obtain ⟨thread, -, h⟩ := bind_eq_some_iff.mp h
    obtain ⟨hsame, -, -, hreturned⟩ := waitStep_frame h
    exact .inl ⟨hsame.symm, waitStep_rely h, hreturned⟩
  | setMaxConcurrent limit | beginRootTurn =>
    cases h
    exact .inl ⟨rfl, .of_phase rfl rfl rfl rfl, rfl⟩

/-- The supervisors after a move: the same, one of them moved, one more, or some of them noticed by
an interrupter. -/
inductive SupervisorsMove (w : RegistryWorld) (event : RegistryEvent) (w' : RegistryWorld) : Prop
  | same (h : w'.supervisors = w.supervisors)
  | moved {sid : ℕ} {move : SupervisorEvent} {old next : SupervisorThread}
      (hevent : event = .supervisor sid move) (hget : w.supervisors[sid]? = some old)
      (hstep : w.supervise sid old move = some w')
      (hmove : ThreadMove w.registry w'.registry move old next)
      (h : w'.supervisors = w.supervisors.set sid next)
  | started {thread : SupervisorThread} (hpc : thread.pc = .leasing)
      (hrequested : thread.requested = false) (h : w'.supervisors = w.supervisors ++ [thread])
  | requested {record : SubagentRecord} {kind : InterruptKind} {records : List SubagentRecord}
      {pc : SubagentRecord → InterruptPc}
      (hlock : w.lifecycle = some (.interrupting kind records pc)) (hmem : record ∈ records)
      (hpc : pc record = .cancelling) (hreg : w'.registry = w.registry.requestCancel record)
      (h : w'.supervisors = w.supervisors.map fun thread =>
        if thread.owner = record ∧ thread.pc.inRun then { thread with requested := true }
        else thread)

theorem startStep_supervisors {ok : Bool} (h : w.startStep ok op = some w') :
    w'.supervisors = w.supervisors ∨ ∃ thread : SupervisorThread,
      thread.pc = .leasing ∧ thread.requested = false ∧
        w'.supervisors = w.supervisors ++ [thread] := by
  cases startStep_case h with
  | ended hop hend => exact .inl hend.frame.2.1
  | started => exact .inr ⟨_, rfl, rfl, rfl⟩
  | _ => exact .inl rfl

theorem supervisors_of_step (h : w.step event = some w') :
    SupervisorsMove w event w' := by
  cases event with
  | supervisor sid event =>
    obtain ⟨old, hget, hstep⟩ := bind_eq_some_iff.mp h
    obtain ⟨-, ⟨next, hset, hmove⟩, -⟩ := supervise_case hget hstep
    exact .moved rfl hget hstep hmove hset
  | spawn request =>
    simp only [step] at h
    split at h
    · cases h
    · split at h
      all_goals
        cases h
        exact .same rfl
  | spawned tid event =>
    obtain ⟨thread, -, h⟩ := bind_eq_some_iff.mp h
    exact .same (spawnStep_frame h).1.1
  | request call =>
    simp only [step] at h
    split at h
    · cases h
    · cases h
      exact .same rfl
  | advance ok =>
    obtain ⟨op, -, h⟩ := bind_eq_some_iff.mp h
    obtain ⟨next, -, rfl⟩ := map_eq_some_iff.mp h
    exact .same rfl
  | start ok =>
    obtain ⟨op, -, h⟩ := bind_eq_some_iff.mp h
    obtain hsame | ⟨thread, hpc, hrequested, hthreads⟩ := startStep_supervisors h
    · exact .same hsame
    · exact .started hpc hrequested hthreads
  | worker r =>
    obtain ⟨op, hop, h⟩ := bind_eq_some_iff.mp h
    unfold workerStep at h
    split at h
    · split at h
      · obtain ⟨next, -, rfl⟩ := map_eq_some_iff.mp h
        exact .same rfl
      · cases h
    · split at h
      · obtain ⟨next, -, rfl⟩ := map_eq_some_iff.mp h
        exact .same rfl
      · cases h
    · split at h
      · rename_i hmem
        obtain ⟨next, -, -, -, -, hcase⟩ := interruptStep_case h
        rcases hcase with ⟨-, -, hthreads, -⟩ | ⟨-, hthreads, -⟩ | ⟨hpc, -, hreg, hthreads⟩ |
          ⟨-, -, hthreads, -⟩
        · exact .same hthreads
        · exact .same hthreads
        · exact .requested hop hmem hpc hreg hthreads
        · exact .same hthreads
      · cases h
    · cases h
  | conclude =>
    obtain ⟨op, -, h⟩ := bind_eq_some_iff.mp h
    exact .same (concludeStep_frame h).2.1
  | abandon =>
    obtain ⟨op, -, h⟩ := bind_eq_some_iff.mp h
    exact .same (abandonStep_frame h).1
  | wait caller targets =>
    cases h
    exact .same rfl
  | waiting wid event =>
    obtain ⟨thread, -, h⟩ := bind_eq_some_iff.mp h
    exact .same (waitStep_frame h).2.1
  | setMaxConcurrent limit | beginRootTurn =>
    cases h
    exact .same rfl

/-- A supervisor after a move was there before, moved itself, has just been started, or was
noticed by an interrupter. -/
inductive ThreadOrigin (w : RegistryWorld) (event : RegistryEvent) (w' : RegistryWorld) :
    SupervisorThread → Prop
  | same {thread : SupervisorThread} (h : thread ∈ w.supervisors) : ThreadOrigin w event w' thread
  | moved {sid : ℕ} {move : SupervisorEvent} {old thread : SupervisorThread}
      (hevent : event = .supervisor sid move) (hget : w.supervisors[sid]? = some old)
      (hstep : w.supervise sid old move = some w')
      (hmove : ThreadMove w.registry w'.registry move old thread) : ThreadOrigin w event w' thread
  | started {thread : SupervisorThread} (hpc : thread.pc = .leasing)
      (hrequested : thread.requested = false) : ThreadOrigin w event w' thread
  | requested {record : SubagentRecord} {kind : InterruptKind} {records : List SubagentRecord}
      {pc : SubagentRecord → InterruptPc} {old : SupervisorThread}
      (hlock : w.lifecycle = some (.interrupting kind records pc)) (hmem : record ∈ records)
      (hpc : pc record = .cancelling) (hreg : w'.registry = w.registry.requestCancel record)
      (hold : old ∈ w.supervisors) (howner : old.owner = record) (hrun : old.pc.inRun) :
      ThreadOrigin w event w' { old with requested := true }

theorem thread_of_step {thread : SupervisorThread} (h : w.step event = some w')
    (ht : thread ∈ w'.supervisors) : ThreadOrigin w event w' thread := by
  cases supervisors_of_step h with
  | same hthreads => exact .same (hthreads ▸ ht)
  | moved hevent hget hstep hmove hset =>
    rw [hset] at ht
    rcases mem_or_eq_of_mem_set ht with ht | rfl
    · exact .same ht
    · exact .moved hevent hget hstep hmove
  | started hpc hrequested hthreads =>
    rw [hthreads] at ht
    rcases mem_append.mp ht with ht | ht
    · exact .same ht
    · rw [mem_singleton.mp ht]
      exact .started hpc hrequested
  | requested hlock hmem hpc hreg hthreads =>
    rename_i record kind records pc
    rw [hthreads] at ht
    obtain ⟨old, hold, rfl⟩ := List.mem_map.mp ht
    -- the request reaches the owner's thread only while it is in a run
    by_cases hrun : old.owner = record ∧ old.pc.inRun
    · rw [if_pos hrun]
      exact .requested hlock hmem hpc hreg hold hrun.1 hrun.2
    · rw [if_neg hrun]
      exact .same hold

/-- A supervisor before a move is still there, or has moved itself. -/
theorem thread_after_step {old : SupervisorThread}
    (h : w.step event = some w') (hold : old ∈ w.supervisors) :
    (∃ thread ∈ w'.supervisors, thread.owner = old.owner ∧ thread.pc = old.pc) ∨
      ∃ sid move next, event = .supervisor sid move ∧ w.supervisors[sid]? = some old ∧
        next ∈ w'.supervisors ∧ ThreadMove w.registry w'.registry move old next := by
  cases supervisors_of_step h with
  | same hthreads => exact .inl ⟨old, hthreads ▸ hold, rfl, rfl⟩
  | moved hevent hget hstep hmove hset =>
    rename_i sid move mover next
    obtain ⟨i, hi⟩ := mem_iff_getElem?.mp hold
    -- other threads keep their index, so the old one is still found at its own
    by_cases hsid : i = sid
    · subst hsid
      rw [hget, some.injEq] at hi
      subst hi
      refine .inr ⟨i, move, next, hevent, hget, ?_, hmove⟩
      rw [hset]
      exact List.mem_set (List.getElem?_eq_some_iff.mp hget).1 next
    · refine .inl ⟨old, ?_, rfl, rfl⟩
      refine mem_of_getElem? (i := i) ?_
      rw [hset, List.getElem?_set_ne (Ne.symm hsid), hi]
  | started hpc hrequested hthreads =>
    exact .inl ⟨old, hthreads ▸ mem_append_left _ hold, rfl, rfl⟩
  | requested hlock hmem hpc hreg hthreads =>
    refine .inl ⟨_, hthreads ▸ List.mem_map_of_mem hold, ?_, ?_⟩
    · split <;> rfl
    · split <;> rfl

end RegistryWorld

end HaskellAgent
