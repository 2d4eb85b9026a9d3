import HaskellAgent.Subagents.Registry.Slots

/-!
# What a move does to the registry

Every invariant about the contents of the registry asks the same question of every move: which
variables does it write, and with what?  `RegistryMove` answers it once for all threads, and
`HolderMove` for the operations under the lock that only look at the registry.
-/

open Option

namespace HaskellAgent

open Registry

/-! ### Completions -/

namespace Registry

/-- The parent whose mail a completion of the record goes to. -/
def completionParent (reg : Registry) (record : SubagentRecord) : Option SubagentRecord :=
  record.recordParent.bind fun parentId =>
    if reg.completionIsAwaited (some parentId) record.recordId then none
    else (reg.lookup parentId).filter fun parent =>
      reg.status parent = .running ∨ reg.status parent = .pending

theorem routeCompletion_case (reg : Registry) (record : SubagentRecord) (status : SubagentStatus)
    (metadata : Option InterAgentMessageMetadata) :
    reg.completionParent record = none ∧ (reg.routeCompletion record status metadata).2 = reg ∨
    ∃ parent work, reg.completionParent record = some parent ∧
      work.workRootTurnId = phaseRootTurnId (reg.recordPhase record) ∧
      work.workMessage = completionMessage record parent status metadata ∧
      reg.routeCompletion record status metadata = (false, reg.enqueueWork parent work) := by
  unfold routeCompletion completionParent
  cases record.recordParent with
  | none => exact .inl ⟨rfl, rfl⟩
  | some parentId =>
    simp only [Option.bind_some]
    split
    · exact .inl ⟨rfl, rfl⟩
    · cases reg.lookup parentId with
      | none => exact .inl ⟨rfl, rfl⟩
      | some parent =>
        dsimp only
        split
        · rename_i hactive
          exact .inr ⟨parent, _, by simp [Option.filter, hactive], rfl, rfl, rfl⟩
        · rename_i hidle
          exact .inl ⟨by simp [Option.filter, hidle], rfl⟩

/-- A publication is noted, and goes to the mail of the parent or not. -/
theorem publishCompletion_case (reg : Registry) (record : SubagentRecord) (status : SubagentStatus)
    (metadata : Option InterAgentMessageMetadata) :
    reg.completionParent record = none ∧
      (reg.publishCompletion record status metadata).2 = reg.publishDirectUpdate record status ∨
    ∃ parent work, reg.completionParent record = some parent ∧
      work.workRootTurnId = phaseRootTurnId (reg.recordPhase record) ∧
      work.workMessage = completionMessage record parent status metadata ∧
      reg.publishCompletion record status metadata
        = (false, (reg.publishDirectUpdate record status).enqueueWork parent work) :=
  routeCompletion_case (reg.publishDirectUpdate record status) record status metadata

end Registry

/-! ### The holder of the lock -/

/-- What the holder of the lock writes on its way. -/
inductive HolderMove (reg : Registry) : LockedOp → Registry → Prop
  | look {op : LockedOp} : HolderMove reg op reg
  | enqueue {record : SubagentRecord} {work : Work} {interrupt : Bool}
      (hturn : reg.isRootTurnAborted work.workRootTurnId = false) :
      HolderMove reg (.sendQueue record work interrupt) (reg.enqueueWork record work)
  | cancel {op : LockedOp} (record : SubagentRecord) : HolderMove reg op (reg.requestCancel record)
  | restartReset {record : SubagentRecord} {work : Work} :
      HolderMove reg (.restartReset record work) (reg.resetCancel record)
  | resumeReset {record : SubagentRecord} {work : Work} {due : Option DueRun} :
      HolderMove reg (.resumeReset record work due) (reg.resetCancel record)
  | restoreReset {record : SubagentRecord} {request : RestoreRequest} {wasClosed : Bool} :
      HolderMove reg (.restoreReset record request wasClosed) (reg.resetCancel record)
  | restart {record : SubagentRecord} {work : Work} {reg' : Registry}
      (hturn : reg.isRootTurnAborted work.workRootTurnId = false)
      (h : reg.scheduleIdleWork record work = .ok reg') :
      HolderMove reg (.restartSchedule record work) reg'
  | resume {record : SubagentRecord} {work : Work} {due : Option DueRun} {reg' : Registry}
      (h : reg.scheduleIdleWork record work = .ok reg') :
      HolderMove reg (.resumeSchedule record work due) reg'
  | dueTake {now : UTCTime} {record : SubagentRecord} {deadline : UTCTime} {reason : Text}
      {rest : List SubagentRecord} {work : Work} {mailbox : List Work}
      (hmail : (reg.recordMail record).recordMailbox = work :: mailbox) :
      HolderMove reg (.dueTake now record deadline reason rest) (reg.setMailbox record mailbox)
  | dueRestore {record : SubagentRecord} {work : Work} {due : Option DueRun} :
      HolderMove reg (.dueRestore record work due)
        (reg.setMailbox record (work :: (reg.recordMail record).recordMailbox))
  | settle {record : SubagentRecord} :
      HolderMove reg (.interruptSettle record) (reg.interruptPending record).2
  | rewrite {record : SubagentRecord} {request : RestoreRequest} {wasClosed : Bool} :
      HolderMove reg (.restoreWrite record request wasClosed)
        (reg.rewriteRecord record request.normalizedPhase)
  | reopen {op : LockedOp} (record : SubagentRecord) (request : RestoreRequest) :
      HolderMove reg op (reg.setPhase record (.idle request.normalizedStatus none))
  | close {op : LockedOp} (record : SubagentRecord) :
      HolderMove reg op (reg.setPhase record .closed)
  | insert {request : RestoreRequest} {record : SubagentRecord} {reg' : Registry}
      (h : reg.restoreMissing request = .ok (record, reg')) :
      HolderMove reg (.restoreInsert request) reg'
  | suspensions {op : LockedOp} (suspensions : SubagentId → Option (UTCTime × Text)) :
      HolderMove reg op { reg with registrySuspensions := suspensions }

theorem advance_move {reg : Registry} {op : LockedOp} {ok : Bool}
    {next : Registry × Option LockedOp} (h : op.advance reg ok = some next) :
    HolderMove reg op next.1 := by
  cases op with
  | sendQueue record work interrupt =>
    simp only [LockedOp.advance] at h
    split at h
    · cases h
      exact .look
    · rename_i hturn
      cases h
      exact .enqueue (Bool.eq_false_iff.mpr hturn)
  | sendCancel record | interruptCancel record =>
    cases h
    exact .cancel record
  | restartReset record work =>
    cases h
    exact .restartReset
  | resumeReset record work due =>
    cases h
    exact .resumeReset
  | restoreReset record request wasClosed =>
    cases h
    exact .restoreReset
  | restartSchedule record work =>
    simp only [LockedOp.advance] at h
    split at h
    · cases h
      exact .look
    · rename_i hturn
      split at h
      · cases h
        exact .look
      · rename_i scheduled hschedule
        cases h
        exact .restart (Bool.eq_false_iff.mpr hturn) hschedule
  | resumeSchedule record work due =>
    simp only [LockedOp.advance] at h
    split at h
    · cases h
      exact .look
    · rename_i scheduled hschedule
      cases h
      exact .resume hschedule
  | dueTake now record deadline reason rest =>
    simp only [LockedOp.advance] at h
    split at h
    · rename_i work mailbox hmail
      cases h
      exact .dueTake hmail
    · split at h
      all_goals
        cases h
        exact .look
  | dueNext now records =>
    cases records with
    | nil =>
      cases h
      exact .look
    | cons record rest =>
      simp only [LockedOp.advance] at h
      split at h
      all_goals
        cases h
        exact .look
  | dueRestore record work due =>
    cases h
    exact .dueRestore
  | closeFound record =>
    obtain ⟨below, -, rfl⟩ := map_eq_some_iff.mp h
    exact .look
  | interruptFound record =>
    cases h
    exact .suspensions _
  | interruptSettle record =>
    rw [LockedOp.advance, some.injEq] at h
    subst h
    exact .settle
  | restoreWrite record request wasClosed =>
    cases h
    exact .rewrite
  | restoreReopen record request =>
    cases h
    exact .reopen record request
  | restoreIdle record request =>
    cases h
    dsimp only
    split
    · exact .reopen record request
    · exact .look
  | restoreFailed record =>
    cases h
    exact .close record
  | restoreInsert request =>
    simp only [LockedOp.advance] at h
    split at h
    · cases h
      exact .look
    · rename_i record restored hrestore
      cases h
      exact .insert hrestore
  | suspendInsert agentId deadline reason =>
    cases h
    exact .suspensions _
  -- the other operations look at the registry, or are not the holder's to advance
  | _ =>
    simp only [LockedOp.advance] at h
    repeat' split at h
    all_goals first
      | cases h; exact .look
      | cases h

/-- The holder never takes a number back. -/
theorem HolderMove.nextRef {reg reg' : Registry} {op : LockedOp} (h : HolderMove reg op reg') :
    reg.nextRef ≤ reg'.nextRef := by
  cases h with
  | restart hturn h | resume h =>
    obtain ⟨-, -, rfl⟩ := scheduleIdleWork_ok h
    exact le_rfl
  | settle => exact (interruptPending_rely reg _).nextRef.ge
  | insert h =>
    obtain ⟨-, -, paths, rfl⟩ := restoreMissing_ok h
    exact Nat.le_succ _
  | _ => exact le_rfl

/-! ### All threads -/

namespace RegistryWorld

variable {w w' : RegistryWorld}

/-- What a move writes. -/
inductive RegistryMove (w : RegistryWorld) : RegistryEvent → Registry → Prop
  /-- Variables that say nothing about the phase or the mail of a record. -/
  | frame {event : RegistryEvent} (async : SubagentRecord → Option ℕ) (live : ℤ)
      (config : SubagentConfig) (closed : Bool) (nextTurn : ℕ)
      (suspensions : SubagentId → Option (UTCTime × Text))
      (waits : Option SubagentId → Option (List SubagentId))
      (hlive : live = w.registry.registryLiveCount ∨ live = 0) :
      RegistryMove w event { w.registry with
        recordAsync := async, registryLiveCount := live, registryConfig := config,
        registryClosed := closed, registryNextRootTurnId := nextTurn,
        registrySuspensions := suspensions, registryActiveWaits := waits }
  | supervised {sid : ℕ} {thread : SupervisorThread} {event : SupervisorEvent} {reg' : Registry}
      (hget : w.supervisors[sid]? = some thread)
      (h : SupervisorEffect w.registry thread event reg') :
      RegistryMove w (.supervisor sid event) reg'
  | admitted {request : SpawnRequest} {record : SubagentRecord} {reg' : Registry}
      (hfree : w.lifecycle = none) (h : w.registry.admitSubagent request = .ok (record, reg')) :
      RegistryMove w (.spawn request) reg'
  | queued {turn : Option RootTurnId} {senderPath : TaskPath} {agentId : SubagentId}
      {content : InterAgentMessageContent} {metadata : InterAgentMessageMetadata}
      {record : SubagentRecord} {work : Work} (hwork : work.workRootTurnId = turn)
      (hturn : w.registry.isRootTurnAborted turn = false) :
      RegistryMove w (.request (.queueMessage agentId turn senderPath content metadata))
        (w.registry.enqueueWork record work)
  | aborted {turn : RootTurnId} :
      RegistryMove w (.request (.abortRootTurn turn)) (w.registry.markAborted turn)
  | advanced {op : LockedOp} {ok : Bool} {reg' : Registry} (hop : w.lifecycle = some op)
      (h : HolderMove w.registry op reg') : RegistryMove w (.advance ok) reg'
  | cancelled {event : RegistryEvent} (record : SubagentRecord) :
      RegistryMove w event (w.registry.requestCancel record)
  | closed {event : RegistryEvent} (record : SubagentRecord) :
      RegistryMove w event (w.registry.closeRecord record)
  | rolledBack {event : RegistryEvent} {record : SubagentRecord}
      (hdeletes : w.deletes event = some record) :
      RegistryMove w event (w.registry.rollbackAdmission record)
  | marked {kind : InterruptKind} {records : List SubagentRecord}
      {pc : SubagentRecord → InterruptPc} {record : SubagentRecord}
      (hop : w.lifecycle = some (.interrupting kind records pc)) (hmem : record ∈ records) :
      RegistryMove w (.worker record) (w.mark kind record).2
  | cleared {records : List SubagentRecord} {pc : SubagentRecord → ShutdownPc}
      (hop : w.lifecycle = some (.shuttingDown true records pc)) :
      RegistryMove w .conclude w.registry.clear
  | waited {wid : ℕ} {thread : WaitThread} {event : WaitEvent} {reg' : Registry}
      (hget : w.waits[wid]? = some thread)
      (h : ∃ cursors waits, reg' = { w.registry with
        registryWaitCursors := cursors, registryActiveWaits := waits }) :
      RegistryMove w (.waiting wid event) reg'

variable {event : RegistryEvent}

/-- Nothing is written. -/
theorem RegistryMove.same : RegistryMove w event w.registry :=
  .frame _ _ _ _ _ _ _ (.inl rfl)

variable {record : SubagentRecord}

variable {stopped : ℕ → Bool} {op : LockedOp}

theorem joinStep_move {pc : JoinPc} {next : JoinPc × Registry}
    (h : pc.step w.registry stopped record = some next) : RegistryMove w event next.2 := by
  cases pc with
  | taking =>
    cases h
    exact .frame _ _ _ _ _ _ _ (.inl rfl)
  | joining sid =>
    simp only [JoinPc.step] at h
    split at h
    · cases h
      exact .same
    · cases h
  | joined => cases h

theorem shutdownStep_move {pc : ShutdownPc} {next : ShutdownPc × Registry}
    (h : pc.step w.registry stopped record = some next) : RegistryMove w event next.2 := by
  unfold ShutdownPc.step at h
  split at h
  · cases h
    exact .cancelled record
  · cases h
    exact .closed record
  · cases h
    exact .frame _ _ _ _ _ _ _ (.inl rfl)
  · obtain ⟨join, hjoin, rfl⟩ := map_eq_some_iff.mp h
    exact joinStep_move hjoin
  · cases h

theorem rollbackStep_move {pc : RollbackPc} {next : RollbackPc × Registry}
    (hdeletes : pc = .deleting → w.deletes event = some record)
    (h : pc.step w.registry stopped record = some next) : RegistryMove w event next.2 := by
  cases pc with
  -- only this step withdraws the record; the other waits for its supervisor
  | deleting =>
    cases h
    exact .rolledBack (hdeletes rfl)
  | stopping join =>
    obtain ⟨join, hjoin, rfl⟩ := map_eq_some_iff.mp h
    exact joinStep_move hjoin

theorem beginOp_move {call : LifecycleRequest} :
    RegistryMove w (.request call) (beginOp w.registry call).1 := by
  cases call with
  | queueMessage agentId turn senderPath content metadata =>
    -- the one request that writes at once; the others only become the holder
    simp only [beginOp]
    split
    · exact .same
    · rename_i queued hqueued
      unfold queueMessage at hqueued
      split at hqueued
      · cases hqueued
      · split at hqueued
        · cases hqueued
        · rename_i hturn
          split at hqueued
          · cases hqueued
          · split at hqueued
            · cases hqueued
            · cases hqueued
              exact .queued rfl (Bool.eq_false_iff.mpr hturn)
  | abortRootTurn turn => exact .aborted
  | sendInput agentId turn senderPath content metadata interrupt =>
    simp only [beginOp]
    split <;> exact .same
  | restoreSubagent request | requestSubagentSuspension agentId now deadline reason =>
    simp only [beginOp]
    repeat' split
    all_goals exact .same
  | _ => exact .frame _ _ _ _ _ _ _ (.inl rfl)

theorem startStep_move {ok : Bool} (hop : w.lifecycle = some op)
    (h : w.startStep ok op = some w') : RegistryMove w (.start ok) w'.registry := by
  -- the outcome of a start is answered to its caller, which is no part of the registry
  cases startStep_case h with
  | ended hstart hend =>
    rw [hend.frame.1]
    exact .same
  | started => exact .frame _ _ _ _ _ _ _ (.inl rfl)
  | joined hnext => exact joinStep_move hnext
  | rollback hnext =>
    refine rollbackStep_move ?_ hnext
    rintro rfl
    simp only [deletes, hop]
  | _ => exact .same

theorem workerStep_move (hop : w.lifecycle = some op)
    (h : w.workerStep record op = some w') : RegistryMove w (.worker record) w'.registry := by
  unfold workerStep at h
  split at h
  · split at h
    · obtain ⟨next, hnext, rfl⟩ := map_eq_some_iff.mp h
      exact shutdownStep_move hnext
    · cases h
  · split at h
    · obtain ⟨next, hnext, rfl⟩ := map_eq_some_iff.mp h
      exact joinStep_move hnext
    · cases h
  · split at h
    -- a suspension cancelled, the mark, a cancellation, or a wait for the supervisor
    · rename_i hmem
      obtain ⟨next, -, -, -, -, hcase⟩ := interruptStep_case h
      rcases hcase with ⟨-, -, -, hreg⟩ | ⟨-, -, -, hreg⟩ | ⟨-, -, hreg, -⟩ | ⟨-, -, -, -, hreg⟩
      all_goals rw [hreg]
      · exact .frame _ _ _ _ _ _ _ (.inl rfl)
      · exact .marked hop hmem
      · exact .cancelled record
      · exact .same
    · cases h
  · cases h

theorem spawnStep_move {tid : ℕ} {thread : SpawnThread} {event : SpawnEvent}
    (hget : w.spawns[tid]? = some thread) (h : w.spawnStep tid thread event = some w') :
    RegistryMove w (.spawned tid event) w'.registry := by
  cases event with
  | proceed =>
    simp only [spawnStep] at h
    split at h
    · cases h
      exact .same
    · obtain ⟨next, hnext, rfl⟩ := map_eq_some_iff.mp h
      exact shutdownStep_move hnext
    · cases h
      exact .same
    · rename_i pc last _ hpc
      obtain ⟨next, hnext, rfl⟩ := map_eq_some_iff.mp h
      refine rollbackStep_move ?_ hnext
      rintro rfl
      obtain ⟨record, pc⟩ := thread
      subst hpc
      simp only [deletes, hget]
    · cases h
  | _ =>
    simp only [spawnStep] at h
    split at h
    all_goals first
      | cases h; exact .same
      | cases h

theorem concludeStep_move (hop : w.lifecycle = some op)
    (h : w.concludeStep op = some w') : RegistryMove w .conclude w'.registry := by
  unfold concludeStep at h
  split at h
  · rename_i reset records pc
    split at h
    · cases h
      cases reset with
      | false => exact .same
      | true => exact .cleared hop
    · cases h
  · split at h
    · cases h
      exact .frame _ _ _ _ _ _ _ (.inr rfl)
    · cases h
  · split at h
    · split at h
      all_goals
        cases h
        exact .frame _ _ _ _ _ _ _ (.inl rfl)
    · cases h
  · cases h

theorem abandonStep_move (h : w.abandonStep op = some w') :
    RegistryMove w .abandon w'.registry := by
  unfold abandonStep at h
  split at h
  · cases h
  all_goals
    cases h
    first
      | exact .frame _ _ _ _ _ _ _ (.inl rfl)
      | (rw [(startThrown_end w ‹_› _).frame.1]; exact .same)

/-- **Every move writes one of these.** -/
theorem registry_of_step (h : w.step event = some w') : RegistryMove w event w'.registry := by
  cases event with
  | supervisor sid event =>
    obtain ⟨thread, hget, h⟩ := bind_eq_some_iff.mp h
    exact .supervised hget (supervise_case hget h).1
  | spawn request =>
    simp only [step] at h
    split at h
    · cases h
    · rename_i hfree
      split at h
      · cases h
        exact .same
      · rename_i record admitted hadmission
        cases h
        exact .admitted hfree hadmission
  | spawned tid event =>
    obtain ⟨thread, hget, h⟩ := bind_eq_some_iff.mp h
    exact spawnStep_move hget h
  | request call =>
    simp only [step] at h
    split at h
    · cases h
    · cases h
      exact beginOp_move
  | advance ok =>
    obtain ⟨op, hop, h⟩ := bind_eq_some_iff.mp h
    obtain ⟨next, hnext, rfl⟩ := map_eq_some_iff.mp h
    exact .advanced hop (advance_move hnext)
  | start ok =>
    obtain ⟨op, hop, h⟩ := bind_eq_some_iff.mp h
    exact startStep_move hop h
  | worker record =>
    obtain ⟨op, hop, h⟩ := bind_eq_some_iff.mp h
    exact workerStep_move hop h
  | conclude =>
    obtain ⟨op, hop, h⟩ := bind_eq_some_iff.mp h
    exact concludeStep_move hop h
  | abandon =>
    obtain ⟨op, -, h⟩ := bind_eq_some_iff.mp h
    exact abandonStep_move h
  | wait caller targets =>
    cases h
    exact .frame _ _ _ _ _ _ _ (.inl rfl)
  | waiting wid event =>
    obtain ⟨thread, hget, h⟩ := bind_eq_some_iff.mp h
    exact .waited hget (waitStep_registry h)
  | setMaxConcurrent limit | beginRootTurn =>
    cases h
    exact .frame _ _ _ _ _ _ _ (.inl rfl)

end RegistryWorld

end HaskellAgent
