import HaskellAgent.Lib.Lists
import HaskellAgent.Subagents.Registry.Allocation

/-!
# Failed spawns

An admission enters a record, its task path and its slot, and counts the spawn for its root turn.
When the preparation of the record or the start of its supervisor fails, `rollbackAdmission` takes
the record, the path and the slot out again.  The count of the turn stays: it is the number of its
admissions.

`holdingsWithout` is what the registry holds beside a record.  The admission of a record, the moves
of its spawn and those of its supervisor do not change it, and after a rollback it is all there is.
-/

open Option Function KeyedList Machine

namespace HaskellAgent

open Registry

/-- What a spawn takes from the registry. -/
@[ext]
structure Holdings where
  registryAgents : SubagentId → Option SubagentRecord
  registryPaths : TaskPath → Option SubagentId
  registryLiveCount : ℤ
  registryRootTurnSpawnCounts : RootTurnId → ℤ

/-- With one more spawn of the turn. -/
def Holdings.counted (held : Holdings) (turn : Option RootTurnId) : Holdings :=
  { held with
    registryRootTurnSpawnCounts := fun other =>
      held.registryRootTurnSpawnCounts other + if turn = some other then 1 else 0 }

namespace Registry

def holdings (reg : Registry) : Holdings where
  registryAgents := reg.lookup
  registryPaths := reg.registryPaths
  registryLiveCount := reg.registryLiveCount
  registryRootTurnSpawnCounts := reg.registryRootTurnSpawnCounts

/-- What the registry holds beside the record, the path of its id, and its slot. -/
def holdingsWithout (reg : Registry) (record : SubagentRecord) : Holdings where
  registryAgents := fun agentId => (reg.lookup agentId).filter (· ≠ record)
  registryPaths := (reg.deleteOwnedPath record.recordTaskPath record.recordId).registryPaths
  registryLiveCount := (reg.releaseSlot record).registryLiveCount
  registryRootTurnSpawnCounts := reg.registryRootTurnSpawnCounts

variable {reg reg' : Registry} {record : SubagentRecord}

section

variable (hagents : reg'.registryAgents = reg.registryAgents)
include hagents

/-- Only the phase of the record matters, and what its slot is for the count. -/
theorem holdingsWithout_congr (hpaths : reg'.registryPaths = reg.registryPaths)
    (hlive : (reg'.releaseSlot record).registryLiveCount =
      (reg.releaseSlot record).registryLiveCount)
    (hcounts : reg'.registryRootTurnSpawnCounts = reg.registryRootTurnSpawnCounts) :
    reg'.holdingsWithout record = reg.holdingsWithout record := by
  unfold holdingsWithout lookup deleteOwnedPath
  rw [hagents, hpaths, hlive, hcounts]

/-- The phase of the record changes, but not whether it holds a slot. -/
theorem holdingsWithout_keep (hpaths : reg'.registryPaths = reg.registryPaths)
    (hlive : reg'.registryLiveCount = reg.registryLiveCount)
    (hslot : phaseHoldsSlot (reg'.recordPhase record) = phaseHoldsSlot (reg.recordPhase record))
    (hcounts : reg'.registryRootTurnSpawnCounts = reg.registryRootTurnSpawnCounts) :
    reg'.holdingsWithout record = reg.holdingsWithout record := by
  refine holdingsWithout_congr hagents hpaths ?_ hcounts
  simp only [releaseSlot, hlive, hslot]

/-- The record gives its slot back. -/
theorem holdingsWithout_release (hpaths : reg'.registryPaths = reg.registryPaths)
    (hlive : reg'.registryLiveCount = (reg.releaseSlot record).registryLiveCount)
    (hslot : phaseHoldsSlot (reg'.recordPhase record) = false)
    (hcounts : reg'.registryRootTurnSpawnCounts = reg.registryRootTurnSpawnCounts) :
    reg'.holdingsWithout record = reg.holdingsWithout record := by
  refine holdingsWithout_congr hagents hpaths ?_ hcounts
  rw [← hlive]
  simp only [releaseSlot, hslot, if_neg (Bool.false_ne_true)]

end

theorem holdingsWithout_transitionToIdle (status : SubagentStatus) :
    (reg.transitionToIdle record status).holdingsWithout record = reg.holdingsWithout record := by
  refine holdingsWithout_release rfl rfl rfl ?_ rfl
  simp [transitionToIdle, deleteSuspension, setPhase, phaseHoldsSlot]

theorem holdingsWithout_closeRecord :
    (reg.closeRecord record).holdingsWithout record = reg.holdingsWithout record := by
  refine holdingsWithout_release rfl rfl rfl ?_ rfl
  simp [closeRecord, setMailbox, setMail, setPhase, phaseHoldsSlot]

/-! ### The supervisor of the record -/

theorem StepCase.holdingsWithout {status : SubagentStatus} {step : SupervisorStep}
    (h : StepCase reg record status step reg') :
    reg'.holdingsWithout record = reg.holdingsWithout record := by
  cases h with
  | stop hphase =>
    refine holdingsWithout_release rfl rfl rfl ?_ rfl
    rw [show (reg.releaseSlot record).recordPhase record = .closed from hphase]
    rfl
  | interrupted hphase => exact holdingsWithout_transitionToIdle _
  | message hphase hmail =>
    refine holdingsWithout_keep rfl rfl rfl ?_ rfl
    rw [hphase]
    simp [setPhase, phaseHoldsSlot]
  | rest hphase | complete hphase => rfl
  | settle hphase => exact holdingsWithout_transitionToIdle _

end Registry

theorem SupervisorEffect.holdingsWithout {reg reg' : Registry} {thread : SupervisorThread}
    {event : SupervisorEvent} (h : SupervisorEffect reg thread event reg') :
    reg'.holdingsWithout thread.owner = reg.holdingsWithout thread.owner := by
  cases h with
  | take h =>
    obtain ⟨-, rfl⟩ | ⟨work, hphase, rfl⟩ := takeStartedWork_case h
    · rfl
    · refine holdingsWithout_keep rfl rfl rfl ?_ rfl
      rw [hphase]
      simp [setPhase, phaseHoldsSlot]
  | reset hpc => rfl
  | step hpc h => exact h.holdingsWithout
  | @publish work status hpc =>
    obtain ⟨mail, hmail⟩ := publishCompletion_mail reg thread.owner status (completionMetadata work)
    rw [hmail]
    rfl
  | finish hpc h => exact (finishSupervisorStep_case h).holdingsWithout
  | acquire hmail | release record | steer hsteering hwork | other suspensions => rfl

/-! ### The moves of the spawn -/

theorem JoinPc.step_holdingsWithout {reg : Registry} {record other : SubagentRecord}
    {stopped : ℕ → Bool} {pc : JoinPc} {next : JoinPc × Registry}
    (h : pc.step reg stopped record = some next) :
    next.2.holdingsWithout other = reg.holdingsWithout other := by
  cases pc with
  | taking =>
    cases h
    rfl
  | joining sid =>
    simp only [JoinPc.step] at h
    split at h
    · cases h
      rfl
    · cases h
  | joined => cases h

theorem ShutdownPc.step_holdingsWithout {reg : Registry} {record : SubagentRecord}
    {stopped : ℕ → Bool} {pc : ShutdownPc} {next : ShutdownPc × Registry}
    (h : pc.step reg stopped record = some next) :
    next.2.holdingsWithout record = reg.holdingsWithout record := by
  unfold ShutdownPc.step at h
  split at h
  · cases h
    rfl
  · cases h
    exact holdingsWithout_closeRecord
  · cases h
    rfl
  · obtain ⟨joined, hjoin, rfl⟩ := map_eq_some_iff.mp h
    exact JoinPc.step_holdingsWithout hjoin
  · cases h

namespace Registry

variable {reg : Registry} {record : SubagentRecord}

/-- **A rollback leaves the holdings without the record**, if the id is its own. -/
theorem holdings_rollbackAdmission (hown : reg.OwnId record) :
    (reg.rollbackAdmission record).holdings = reg.holdingsWithout record := by
  refine Holdings.ext ?_ rfl rfl rfl
  funext agentId
  show KeyedList.lookup (·.recordId) agentId
    (KeyedList.delete (·.recordId) record.recordId reg.registryAgents) =
      (KeyedList.lookup (·.recordId) agentId reg.registryAgents).filter (· ≠ record)
  by_cases hid : agentId = record.recordId
  · rw [hid, KeyedList.lookup_delete_self]
    cases hlookup : KeyedList.lookup (·.recordId) record.recordId reg.registryAgents with
    | none => rfl
    | some r =>
      have hr : r = record :=
        hown r (mem_of_lookup hlookup) (key_of_lookup hlookup)
      rw [hr, filter_some, if_neg (by simp)]
  · rw [KeyedList.lookup_delete_of_ne hid]
    cases hlookup : KeyedList.lookup (·.recordId) agentId reg.registryAgents with
    | none => rfl
    | some r =>
      have hr : r ≠ record := by
        rintro rfl
        exact hid (key_of_lookup hlookup).symm
      rw [filter_some, if_pos (by simpa using hr)]

theorem holdingsWithout_rollbackAdmission (hown : reg.OwnId record) :
    (reg.rollbackAdmission record).holdingsWithout record = reg.holdingsWithout record := by
  rw [← holdings_rollbackAdmission hown]
  refine Holdings.ext ?_ ?_ ?_ rfl
  · funext agentId
    show ((reg.rollbackAdmission record).lookup agentId).filter (· ≠ record) =
      (reg.rollbackAdmission record).lookup agentId
    cases hlookup : (reg.rollbackAdmission record).lookup agentId with
    | none => rfl
    | some r =>
      have hmem : r ∈ KeyedList.delete (·.recordId) record.recordId reg.registryAgents :=
        mem_of_lookup hlookup
      have hr : r ≠ record := by
        rintro rfl
        exact (mem_delete.mp hmem).2 rfl
      rw [filter_some, if_pos (by simpa using hr)]
  · show ((reg.rollbackAdmission record).deleteOwnedPath record.recordTaskPath
      record.recordId).registryPaths = (reg.rollbackAdmission record).registryPaths
    simp only [deleteOwnedPath, ite_eq_right_iff]
    intro hpath
    -- the path was deleted, so the id does not own it any more
    simp only [rollbackAdmission, setPhase, releaseSlot, deleteOwnedPath] at hpath
    split at hpath
    · rw [update_self] at hpath
      cases hpath
    · contradiction
  · have hslot : phaseHoldsSlot ((reg.rollbackAdmission record).recordPhase record) = false := by
      simp [rollbackAdmission, setPhase, phaseHoldsSlot]
    show ((reg.rollbackAdmission record).releaseSlot record).registryLiveCount = _
    simp only [releaseSlot, hslot, if_neg (Bool.false_ne_true)]
    rfl

theorem rollbackAdmission_not_mem : record ∉ (reg.rollbackAdmission record).registryAgents := by
  intro hmem
  have hmem : record ∈ KeyedList.delete (·.recordId) record.recordId reg.registryAgents := hmem
  exact (mem_delete.mp hmem).2 rfl

theorem admitSubagent_path {reg' : Registry} {request : SpawnRequest}
    (h : reg.admitSubagent request = .ok (record, reg')) :
    reg.registryPaths record.recordTaskPath = none := by
  unfold admitSubagent at h
  split at h
  · cases h
  · split at h
    · cases h
    · split at h
      · cases h
      · split at h
        · cases h
        · cases h
        · split at h
          · cases h
          · next childPath hpath =>
            split at h
            · cases h
            · next hfree =>
              split at h
              · cases h
              · cases h
                exact not_isSome_iff_eq_none.mp hfree

/-- **An admission adds to the holdings without the record** nothing but the count of its turn. -/
theorem holdingsWithout_admitSubagent {reg' : Registry} {request : SpawnRequest}
    (h : reg.admitSubagent request = .ok (record, reg'))
    (hnew : ∀ r ∈ reg.registryAgents, r.recordId ≠ request.agentId)
    (hids : KeyedList.DistinctKeys (·.recordId) reg.registryAgents)
    (hlive : 0 ≤ reg.registryLiveCount) :
    reg'.holdingsWithout record = reg.holdings.counted request.rootTurnId := by
  have hpath := admitSubagent_path h
  obtain ⟨-, -, -, hid, work, -, rfl⟩ := admitSubagent_ok h
  rw [← hid] at hnew
  refine Holdings.ext ?_ ?_ ?_ ?_
  · funext agentId
    show (KeyedList.lookup (·.recordId) agentId
      (KeyedList.insert (·.recordId) record reg.registryAgents)).filter (· ≠ record) =
        KeyedList.lookup (·.recordId) agentId reg.registryAgents
    have hmem := fun r => mem_insert_of_new (b := r) hnew
    by_cases hagent : agentId = record.recordId
    · have hnone : KeyedList.lookup (·.recordId) agentId reg.registryAgents = none :=
        lookup_eq_none_iff.mpr fun r hr => hagent ▸ hnew r hr
      have hsome : KeyedList.lookup (·.recordId) agentId
          (KeyedList.insert (·.recordId) record reg.registryAgents) = some record :=
        (lookup_eq_some_iff (hids.insert record)).mpr
          ⟨(hmem record).mpr (.inl rfl), hagent.symm⟩
      rw [hnone, hsome, filter_some, if_neg (by simp)]
    · cases hlookup : KeyedList.lookup (·.recordId) agentId reg.registryAgents with
      | none =>
        have hnone : KeyedList.lookup (·.recordId) agentId
            (KeyedList.insert (·.recordId) record reg.registryAgents) = none := by
          refine lookup_eq_none_iff.mpr fun r hr => ?_
          rcases (hmem r).mp hr with rfl | hr
          · exact fun he => hagent he.symm
          · exact lookup_eq_none_iff.mp hlookup r hr
        rw [hnone]
        rfl
      | some r =>
        have hr := mem_of_lookup hlookup
        have hkey := key_of_lookup hlookup
        have hsome : KeyedList.lookup (·.recordId) agentId
            (KeyedList.insert (·.recordId) record reg.registryAgents) = some r :=
          (lookup_eq_some_iff (hids.insert record)).mpr ⟨(hmem r).mpr (.inr hr), hkey⟩
        have hne : r ≠ record := by
          rintro rfl
          exact hagent hkey.symm
        rw [hsome, filter_some, if_pos (by simpa using hne)]
  · simp only [holdingsWithout, deleteOwnedPath, insertPath, update_self, if_true,
      update_idem]
    rw [← hpath]
    exact update_eq_self _ _
  · simp [holdingsWithout, holdings, Holdings.counted, releaseSlot, insertPath, insertAgent,
      countSpawn, takeSlot, allocate, phaseHoldsSlot, hlive]
  · funext turn
    simp only [holdingsWithout, holdings, Holdings.counted, insertPath, insertAgent, countSpawn,
      takeSlot, allocate]
    cases request.rootTurnId with
    | none => simp
    | some owner =>
      simp only [elim_some, some.injEq]
      by_cases hturn : turn = owner
      · simp [hturn]
      · rw [update_of_ne hturn, if_neg fun he => hturn he.symm, add_zero]

end Registry

/-! ### The live count -/

section LiveCount

variable {reg reg' : Registry} {record : SubagentRecord}

theorem releaseSlot_live_nonneg (h : 0 ≤ reg.registryLiveCount) (record : SubagentRecord) :
    0 ≤ (reg.releaseSlot record).registryLiveCount := by
  simp only [releaseSlot]
  split
  · exact le_max_left _ _
  · exact h

section

variable (hlive : 0 ≤ reg.registryLiveCount)
include hlive

theorem StepCase.live_nonneg {status : SubagentStatus} {step : SupervisorStep}
    (h : StepCase reg record status step reg') :
    0 ≤ reg'.registryLiveCount := by
  cases h with
  | message hphase hmail | rest hphase | complete hphase => exact hlive
  | _ => exact releaseSlot_live_nonneg hlive record

theorem SupervisorEffect.live_nonneg {thread : SupervisorThread} {event : SupervisorEvent}
    (h : SupervisorEffect reg thread event reg') :
    0 ≤ reg'.registryLiveCount := by
  cases h with
  | take h =>
    obtain ⟨-, rfl⟩ | ⟨work, -, rfl⟩ := takeStartedWork_case h
    · exact hlive
    · exact hlive
  | step hpc h => exact StepCase.live_nonneg hlive h
  | @publish work status hpc =>
    obtain ⟨mail, hmail⟩ := publishCompletion_mail reg thread.owner status (completionMetadata work)
    rw [hmail]
    exact hlive
  | finish hpc h => exact StepCase.live_nonneg hlive (finishSupervisorStep_case h)
  | _ => exact hlive

theorem HolderMove.live_nonneg {op : LockedOp}
    (h : HolderMove reg op reg') : 0 ≤ reg'.registryLiveCount := by
  have hmore : 0 ≤ reg.takeSlot.registryLiveCount := Int.add_nonneg hlive Int.one_nonneg
  cases h with
  | restart hturn h | resume h =>
    obtain ⟨-, -, rfl⟩ := scheduleIdleWork_ok h
    exact hmore
  | @settle record =>
    have hfreed := releaseSlot_live_nonneg hlive record
    obtain ⟨_, _, -, heq⟩ | ⟨_, _, _, -, -, heq⟩ | ⟨_, -, heq⟩ | heq :=
      interruptPending_case reg record
    all_goals rw [heq]
    · exact hlive
    · exact Int.add_nonneg hfreed Int.one_nonneg
    · exact hfreed
    · exact hlive
  | @rewrite record request wasClosed => exact releaseSlot_live_nonneg hlive record
  | insert h =>
    obtain ⟨-, -, paths, rfl⟩ := restoreMissing_ok h
    exact hlive
  | _ => exact hlive

end

theorem mark_live_nonneg {w : RegistryWorld} (hlive : 0 ≤ w.registry.registryLiveCount)
    (kind : InterruptKind) (record : SubagentRecord) :
    0 ≤ (w.mark kind record).2.registryLiveCount := by
  have hfreed := releaseSlot_live_nonneg hlive record
  cases kind with
  | abortTurn turn =>
    obtain ⟨-, heq⟩ | ⟨work, -, heq⟩ | ⟨owner, -, heq⟩ | ⟨owner, -, heq⟩ :=
      interruptRecordForTurn_case w.registry turn record
    all_goals rw [RegistryWorld.mark, heq]
    · exact hlive
    · exact hfreed
    · exact hlive
    · exact hlive
  | active wasClosed =>
    obtain ⟨-, heq⟩ | ⟨work, -, heq⟩ | ⟨owner, -, heq⟩ | ⟨owner, -, heq⟩ :=
      interruptRecord_case w.registry record
    all_goals rw [RegistryWorld.mark, heq]
    · exact hlive
    · have hemptied : 0 ≤ (w.registry.setMailbox record []).registryLiveCount := hlive
      exact releaseSlot_live_nonneg hemptied record
    · exact hlive
    · exact hlive

end LiveCount

namespace RegistryWorld

variable {w w' : RegistryWorld}

theorem RegistryMove.live_nonneg {event : RegistryEvent} {reg' : Registry}
    (hlive : 0 ≤ w.registry.registryLiveCount) (h : RegistryMove w event reg') :
    0 ≤ reg'.registryLiveCount := by
  cases h with
  | frame _ _ _ _ _ _ _ hcount =>
    rcases hcount with rfl | rfl
    · exact hlive
    · exact le_refl 0
  | supervised hget h => exact SupervisorEffect.live_nonneg hlive h
  | admitted hfree h =>
    obtain ⟨-, -, -, -, work, -, rfl⟩ := admitSubagent_ok h
    exact Int.add_nonneg hlive Int.one_nonneg
  | advanced hop h => exact HolderMove.live_nonneg hlive h
  | closed record => exact releaseSlot_live_nonneg hlive record
  | @rolledBack event record hdeletes =>
    have hdeleted : 0 ≤ (({ w.registry with
        registryAgents := KeyedList.delete (·.recordId) record.recordId w.registry.registryAgents } :
          Registry).deleteOwnedPath record.recordTaskPath record.recordId).registryLiveCount :=
      hlive
    exact releaseSlot_live_nonneg hdeleted record
  | marked hop hmem => exact mark_live_nonneg hlive _ _
  | cleared hop => exact le_refl 0
  | waited hget h =>
    obtain ⟨cursors, waits, rfl⟩ := h
    exact hlive
  | _ => exact hlive

/-- **The live count never becomes negative.** -/
theorem live_nonneg_step {event : RegistryEvent} (hlive : 0 ≤ w.registry.registryLiveCount)
    (h : w.step event = some w') : 0 ≤ w'.registry.registryLiveCount :=
  (registry_of_step h).live_nonneg hlive

end RegistryWorld

/-! ### The moves of a spawn -/

/-- The spawn has made the transaction of its rollback, and stops the supervisor. -/
def SpawnPc.rolledBack : SpawnPc → Bool
  | .rollingBack (.stopping _) _ => true
  | _ => false

/-- The spawn has not come to the transaction of its rollback, nor to its end. -/
def SpawnPc.pending : SpawnPc → Bool
  | .rollingBack (.stopping _) _ => false
  | .done => false
  | _ => true

theorem SpawnPc.rolledBack_of_pending {pc : SpawnPc} (h : pc.pending) : pc.rolledBack = false := by
  unfold SpawnPc.pending at h
  split at h
  · cases h
  · rfl
  · next hrolling _ =>
    unfold SpawnPc.rolledBack
    split
    · exact (hrolling _ _ rfl).elim
    · rfl

/-- The record a holder of the lock starts a supervisor for. -/
def LockedOp.starting : LockedOp → Option SubagentRecord
  | .startCheck record _ => some record
  | .startThread record _ => some record
  | .startWait record _ _ => some record
  | .startStop record _ _ _ => some record
  | _ => none

namespace RegistryWorld

/-- The moves of the spawn of a record, with `startRecordSupervisor`, those of its supervisor, those
of an operation on several records that concern this one, and the exceptions of a holder of the
lock, which write nothing about records. -/
def ofSpawn (w : RegistryWorld) (record : SubagentRecord) : RegistryEvent → Prop
  | .spawned tid _ => (w.spawns[tid]?).any (·.record = record)
  | .supervisor sid _ => (w.supervisors[sid]?).any (·.owner = record)
  | .start _ => w.lifecycle.bind LockedOp.starting = some record
  | .abandon => True
  | .worker other => other = record
  | _ => False

variable {w w' : RegistryWorld} {record : SubagentRecord}

theorem spawnStep_holdingsWithout {tid : ℕ} {thread : SpawnThread} {event : SpawnEvent}
    (hget : w.spawns[tid]? = some thread) (hrecord : thread.record = record)
    (hok : ∀ deleted ∈ w.deletes (.spawned tid event), w.registry.OwnId deleted)
    (h : w.spawnStep tid thread event = some w') :
    w'.registry.holdingsWithout record = w.registry.holdingsWithout record := by
  subst hrecord
  cases event with
  | proceed =>
    simp only [spawnStep] at h
    split at h
    · cases h
      rfl
    · obtain ⟨next, hnext, rfl⟩ := map_eq_some_iff.mp h
      exact ShutdownPc.step_holdingsWithout hnext
    · cases h
      rfl
    · next pc last _ hpc =>
      obtain ⟨next, hnext, rfl⟩ := map_eq_some_iff.mp h
      cases pc with
      | deleting =>
        cases hnext
        have hdeletes : w.deletes (.spawned tid .proceed) = some thread.record := by
          obtain ⟨record, pc⟩ := thread
          subst hpc
          simp only [deletes, hget]
        exact holdingsWithout_rollbackAdmission (hok _ hdeletes)
      | stopping join =>
        obtain ⟨joined, hjoin, rfl⟩ := map_eq_some_iff.mp hnext
        exact JoinPc.step_holdingsWithout hjoin
    · cases h
  | _ =>
    simp only [spawnStep] at h
    split at h
    all_goals first
      | cases h; rfl
      | cases h

variable {op : LockedOp}

theorem startStep_holdingsWithout {ok : Bool} (hstarts : op.starting = some record)
    (h : w.startStep ok op = some w') :
    w'.registry.holdingsWithout record = w.registry.holdingsWithout record := by
  cases startStep_case h with
  | ended hop hend => rw [hend.frame.1]
  | joined hnext =>
    cases hstarts
    exact JoinPc.step_holdingsWithout hnext
  | rolledBack | rollback => cases hstarts
  | _ => rfl

theorem abandonStep_holdingsWithout (h : w.abandonStep op = some w') :
    w'.registry.holdingsWithout record = w.registry.holdingsWithout record := by
  unfold abandonStep at h
  split at h
  · cases h
  all_goals
    cases h
    first
      | rfl
      | rw [(startThrown_end w ‹_› _).frame.1]

theorem holdingsWithout_mark (kind : InterruptKind) :
    (w.mark kind record).2.holdingsWithout record = w.registry.holdingsWithout record := by
  cases kind with
  | abortTurn turn =>
    obtain ⟨-, heq⟩ | ⟨work, -, heq⟩ | ⟨owner, hphase, heq⟩ | ⟨owner, -, heq⟩ :=
      interruptRecordForTurn_case w.registry turn record
    all_goals rw [mark, heq]
    · refine holdingsWithout_release rfl rfl rfl ?_ rfl
      simp [setPhase, phaseHoldsSlot]
    · refine holdingsWithout_keep rfl rfl rfl ?_ rfl
      rw [hphase]
      simp [setPhase, phaseHoldsSlot]
  | active wasClosed =>
    obtain ⟨-, heq⟩ | ⟨work, -, heq⟩ | ⟨owner, hphase, heq⟩ | ⟨owner, -, heq⟩ :=
      interruptRecord_case w.registry record
    all_goals rw [mark, heq]
    · rfl
    · refine holdingsWithout_release rfl rfl rfl ?_ rfl
      simp [transitionToIdle, deleteSuspension, setPhase, phaseHoldsSlot]
    · refine holdingsWithout_keep rfl rfl rfl ?_ rfl
      rw [hphase]
      simp [setMailbox, setMail, setPhase, phaseHoldsSlot]
    · rfl

theorem workerStep_holdingsWithout (h : w.workerStep record op = some w') :
    w'.registry.holdingsWithout record = w.registry.holdingsWithout record := by
  unfold workerStep at h
  split at h
  · split at h
    · obtain ⟨next, hnext, rfl⟩ := map_eq_some_iff.mp h
      exact ShutdownPc.step_holdingsWithout hnext
    · cases h
  · split at h
    · obtain ⟨next, hnext, rfl⟩ := map_eq_some_iff.mp h
      exact JoinPc.step_holdingsWithout hnext
    · cases h
  · split at h
    · obtain ⟨next, -, -, -, -, hcase⟩ := interruptStep_case h
      rcases hcase with ⟨-, -, -, hreg⟩ | ⟨-, -, -, hreg⟩ | ⟨-, -, hreg, -⟩ | ⟨-, -, -, -, hreg⟩
      all_goals rw [hreg]
      · rfl
      · exact holdingsWithout_mark _
      · rfl
    · cases h
  · cases h

variable {event : RegistryEvent}

/-- **A spawn changes nothing beside its record.** -/
theorem holdingsWithout_of_spawn (hok : w.Identified event) (hspawn : w.ofSpawn record event)
    (h : w.step event = some w') :
    w'.registry.holdingsWithout record = w.registry.holdingsWithout record := by
  cases event with
  | supervisor sid event =>
    obtain ⟨thread, hget, h⟩ := bind_eq_some_iff.mp h
    have howner : thread.owner = record := by simpa [ofSpawn, hget] using hspawn
    exact howner ▸ SupervisorEffect.holdingsWithout (supervise_case hget h).1
  | spawned tid event =>
    obtain ⟨thread, hget, h⟩ := bind_eq_some_iff.mp h
    have hrecord : thread.record = record := by simpa [ofSpawn, hget] using hspawn
    exact spawnStep_holdingsWithout hget hrecord hok.2 h
  | start ok =>
    obtain ⟨op, hop, h⟩ := bind_eq_some_iff.mp h
    have hstarts : op.starting = some record := by simpa [ofSpawn, hop] using hspawn
    exact startStep_holdingsWithout hstarts h
  | abandon =>
    obtain ⟨op, -, h⟩ := bind_eq_some_iff.mp h
    exact abandonStep_holdingsWithout h
  | worker other =>
    obtain ⟨op, -, h⟩ := bind_eq_some_iff.mp h
    obtain rfl : other = record := hspawn
    exact workerStep_holdingsWithout h
  | _ => exact hspawn.elim

/-! ### After a rollback -/

/-- Only new records are registered. -/
theorem agents_of_step {r : SubagentRecord} (h : w.step event = some w')
    (hr : r ∈ w'.registry.registryAgents) :
    r ∈ w.registry.registryAgents ∨ w.registry.nextRef ≤ r.recordRef := by
  have hmove := registry_of_step h
  generalize w'.registry = reg' at hmove hr
  cases hmove with
  | supervised hget heffect => exact .inl (heffect.agents ▸ hr)
  | admitted hfree hadmission =>
    obtain ⟨-, -, href, -, work, -, rfl⟩ := admitSubagent_ok hadmission
    rcases mem_insert.mp hr with rfl | ⟨hr, -⟩
    · exact .inr href.ge
    · exact .inl hr
  | advanced hop hholder =>
    cases hholder with
    | restart hturn hschedule | resume hschedule =>
      obtain ⟨-, -, rfl⟩ := scheduleIdleWork_ok hschedule
      exact .inl hr
    | @settle record => exact .inl ((interruptPending_rely w.registry record).agents r hr)
    | insert hrestore =>
      obtain ⟨href, -, paths, rfl⟩ := restoreMissing_ok hrestore
      rcases mem_insert.mp hr with rfl | ⟨hr, -⟩
      · exact .inr href.ge
      · exact .inl hr
    | _ => exact .inl hr
  | rolledBack hdeletes => exact .inl (mem_delete.mp hr).1
  | marked hop hmem => exact .inl (mark_agents w _ _ ▸ hr)
  | cleared hop => cases hr
  | waited hget hregistry =>
    obtain ⟨cursors, waits, rfl⟩ := hregistry
    exact .inl hr
  | _ => exact .inl hr

/-- Some spawn may have been sent where it is neither past its rollback nor at its end. -/
def Resends (w w' : RegistryWorld) : Prop :=
  w'.spawns = w.spawns ∨ ∃ tid pc, SpawnPc.pending pc ∧ w'.spawns = w.setSpawn tid pc

theorem StartEnd.resends {caller : StartCaller} (hend : StartEnd w record caller w') :
    w.Resends w' := by
  cases hend with
  | spawn hpc => exact .inr ⟨_, _, by rcases hpc with rfl | rfl | rfl <;> rfl, rfl⟩
  | _ => exact .inl rfl

theorem startStep_resends {ok : Bool} (h : w.startStep ok op = some w') : w.Resends w' := by
  cases startStep_case h with
  | ended hop hend => exact hend.resends
  | _ => exact .inl rfl

theorem abandonStep_resends (h : w.abandonStep op = some w') : w.Resends w' := by
  unfold abandonStep at h
  split at h
  · cases h
  all_goals
    cases h
    first
      | exact .inl rfl
      | exact (startThrown_end w ‹_› _).resends

/-- Where a move of its own can take a spawn. -/
def Reaches (w : RegistryWorld) (event : RegistryEvent) (old : SpawnThread) (tid : ℕ)
    (pc : SpawnPc) : Prop :=
  pc.pending ∨ old.pc.rolledBack ∨ (event = .spawned tid .returned ∧ pc = .done) ∨
    (w.deletes event = some old.record ∧ pc.rolledBack)

theorem spawnStep_reaches {tid : ℕ} {thread : SpawnThread} {move : SpawnEvent}
    (hget : w.spawns[tid]? = some thread) (h : w.spawnStep tid thread move = some w') :
    ∃ pc, w'.spawns = w.setSpawn tid pc ∧ w.Reaches (.spawned tid move) thread tid pc := by
  cases move with
  | prepared ok =>
    simp only [spawnStep] at h
    split at h
    · cases h
      refine ⟨_, rfl, .inl ?_⟩
      split <;> rfl
    · cases h
  | start =>
    simp only [spawnStep] at h
    split at h
    · cases h
      exact ⟨_, rfl, .inl rfl⟩
    · cases h
  | killed =>
    simp only [spawnStep] at h
    split at h
    case h_6 hpc =>
      cases h
      exact ⟨_, rfl, .inr (.inl (by rw [hpc]; rfl))⟩
    all_goals
      cases h
      try exact ⟨_, rfl, .inl rfl⟩
  | proceed =>
    simp only [spawnStep] at h
    split at h
    · cases h
      exact ⟨_, rfl, .inl rfl⟩
    · obtain ⟨next, -, rfl⟩ := map_eq_some_iff.mp h
      exact ⟨_, rfl, .inl rfl⟩
    · next hpc =>
      cases h
      exact ⟨_, rfl, .inr (.inl (by rw [hpc]; rfl))⟩
    · next pc last _ hpc =>
      obtain ⟨next, hnext, rfl⟩ := map_eq_some_iff.mp h
      refine ⟨_, rfl, .inr ?_⟩
      -- the spawn deletes its record now, or has deleted it before
      cases pc with
      | deleting =>
        cases hnext
        obtain ⟨record, before⟩ := thread
        obtain rfl : before = .rollingBack .deleting last := hpc
        refine .inr (.inr ⟨?_, rfl⟩)
        simp only [deletes, hget]
      | stopping join => exact .inl (by rw [hpc]; rfl)
    · cases h
  | returned =>
    simp only [spawnStep] at h
    split at h
    · cases h
      exact ⟨_, rfl, .inr (.inr (.inl ⟨rfl, rfl⟩))⟩
    · cases h

section

variable (h : w.step event = some w')
include h

variable {thread : SpawnThread}

/-- **Where a spawn is after a move**: where it was, or where the move can take it. -/
theorem spawn_of_step {tid : ℕ}
    (hget : w'.spawns[tid]? = some thread) :
    thread.pc.pending ∨ ∃ old, w.spawns[tid]? = some old ∧ old.record = thread.record ∧
      (old.pc = thread.pc ∨ w.Reaches event old tid thread.pc) := by
  have hsame : w'.spawns = w.spawns → thread.pc.pending ∨ ∃ old, w.spawns[tid]? = some old ∧
      old.record = thread.record ∧ (old.pc = thread.pc ∨ w.Reaches event old tid thread.pc) :=
    fun hspawns => .inr ⟨thread, hspawns ▸ hget, rfl, .inl rfl⟩
  have hresent : w.Resends w' → thread.pc.pending ∨ ∃ old, w.spawns[tid]? = some old ∧
      old.record = thread.record ∧ (old.pc = thread.pc ∨ w.Reaches event old tid thread.pc) := by
    rintro (hspawns | ⟨i, pc, hpending, hspawns⟩)
    · exact hsame hspawns
    · rw [hspawns, setSpawn, List.getElem?_modify] at hget
      obtain ⟨old, hold, rfl⟩ := map_eq_some_iff.mp hget
      split
      · exact .inl hpending
      · exact .inr ⟨old, hold, rfl, .inl rfl⟩
  cases event with
  | supervisor sid event =>
    obtain ⟨supervisor, hget, h⟩ := bind_eq_some_iff.mp h
    exact hsame (supervise_case hget h).2.2.spawns
  | spawn request =>
    simp only [step] at h
    split at h
    · cases h
    · split at h
      · cases h
        exact hsame rfl
      · cases h
        rcases List.getElem?_concat_cases hget with hget | ⟨-, rfl⟩
        · exact .inr ⟨thread, hget, rfl, .inl rfl⟩
        · exact .inl rfl
  | spawned i move =>
    obtain ⟨spawn, hspawn, h⟩ := bind_eq_some_iff.mp h
    obtain ⟨pc, hspawns, hreached⟩ := spawnStep_reaches hspawn h
    rw [hspawns, setSpawn, List.getElem?_modify] at hget
    obtain ⟨old, hold, rfl⟩ := map_eq_some_iff.mp hget
    by_cases hi : i = tid
    · subst hi
      obtain rfl : spawn = old := some.inj (hspawn.symm.trans hold)
      rw [if_pos rfl]
      exact .inr ⟨spawn, hspawn, rfl, .inr hreached⟩
    · rw [if_neg hi]
      exact .inr ⟨old, hold, rfl, .inl rfl⟩
  | request call =>
    simp only [step] at h
    split at h
    · cases h
    · cases h
      exact hsame rfl
  | advance ok =>
    obtain ⟨op, -, h⟩ := bind_eq_some_iff.mp h
    obtain ⟨next, -, rfl⟩ := map_eq_some_iff.mp h
    exact hsame rfl
  | start ok =>
    obtain ⟨op, -, h⟩ := bind_eq_some_iff.mp h
    exact hresent (startStep_resends h)
  | worker record =>
    obtain ⟨op, -, h⟩ := bind_eq_some_iff.mp h
    exact hsame (workerStep_frame h).1
  | conclude =>
    obtain ⟨op, -, h⟩ := bind_eq_some_iff.mp h
    exact hsame (concludeStep_frame h).2.2.1
  | abandon =>
    obtain ⟨op, -, h⟩ := bind_eq_some_iff.mp h
    exact hresent (abandonStep_resends h)
  | waiting wid event =>
    obtain ⟨wait, -, h⟩ := bind_eq_some_iff.mp h
    exact hsame (waitStep_frame h).2.2.1
  | wait caller targets | setMaxConcurrent limit | beginRootTurn =>
    cases h
    exact hsame rfl

/-- A spawn gets past its rollback by the transaction of the rollback. -/
theorem rolledBack_of_step {tid : ℕ}
    (hget : w'.spawns[tid]? = some thread) (hrolled : thread.pc.rolledBack = true) :
    (∃ old, w.spawns[tid]? = some old ∧ old.record = thread.record ∧
        old.pc.rolledBack = true) ∨
      w.deletes event = some thread.record := by
  have hnever : ¬ thread.pc.pending := fun hpending => by
    rw [SpawnPc.rolledBack_of_pending hpending] at hrolled
    cases hrolled
  rcases spawn_of_step h hget with hpending | ⟨old, hold, hrecord, heq | hreached⟩
  · exact absurd hpending hnever
  · exact .inl ⟨old, hold, hrecord, heq ▸ hrolled⟩
  · rcases hreached with hpending | hbefore | ⟨-, hdone⟩ | ⟨hdeletes, -⟩
    · exact absurd hpending hnever
    · exact .inl ⟨old, hold, hrecord, hbefore⟩
    · rw [hdone] at hrolled
      cases hrolled
    · exact .inr (hrecord ▸ hdeletes)

/-- **A spawn ends** by its return, or after its rollback. -/
theorem done_of_step {tid : ℕ}
    (hget : w'.spawns[tid]? = some thread) (hdone : thread.pc = .done) :
    ∃ old, w.spawns[tid]? = some old ∧ old.record = thread.record ∧
      (old.pc = .done ∨ event = .spawned tid .returned ∨ old.pc.rolledBack = true) := by
  have hnever : ¬ thread.pc.pending := by
    rw [hdone]
    exact Bool.false_ne_true
  rcases spawn_of_step h hget with hpending | ⟨old, hold, hrecord, heq | hreached⟩
  · exact absurd hpending hnever
  · exact ⟨old, hold, hrecord, .inl (heq.trans hdone)⟩
  · refine ⟨old, hold, hrecord, .inr ?_⟩
    rcases hreached with hpending | hbefore | ⟨hreturned, -⟩ | ⟨-, hrolled⟩
    · exact absurd hpending hnever
    · exact .inr hbefore
    · exact .inl hreturned
    · rw [hdone] at hrolled
      cases hrolled

theorem registry_of_deletes (hdeletes : w.deletes event = some record) :
    w'.registry = w.registry.rollbackAdmission record := by
  unfold deletes at hdeletes
  split at hdeletes
  · next tid =>
    obtain ⟨thread, hget, h⟩ := bind_eq_some_iff.mp h
    rw [hget] at hdeletes
    split at hdeletes
    · next last hthread =>
      cases hthread
      cases hdeletes
      simp only [spawnStep, RollbackPc.step, map_some, some.injEq] at h
      subst h
      rfl
    · cases hdeletes
  · obtain ⟨op, hop, h⟩ := bind_eq_some_iff.mp h
    rw [hop] at hdeletes
    split at hdeletes
    · next hholder =>
      cases hholder
      cases hdeletes
      simp only [startStep, RollbackPc.step, map_some, some.injEq] at h
      subst h
      rfl
    · cases hdeletes
  · cases hdeletes

end

/-- What the run of a spawn can rely on. -/
structure SpawnInv (w : RegistryWorld) : Prop where
  slots : w.SlotInv False
  allocated : w.Allocated
  live : 0 ≤ w.registry.registryLiveCount
  /-- A spawn past its rollback has left its record to nobody. -/
  gone : ∀ (tid : ℕ) (thread : SpawnThread), w.spawns[tid]? = some thread →
    thread.pc.rolledBack = true → thread.record ∉ w.registry.registryAgents

theorem spawnInv_step (h : w.SpawnInv) (hok : w.Identified event) (hstep : w.step event = some w') :
    w'.SpawnInv where
  slots := slotInv_step h.slots hok False.elim hstep
  allocated := allocated_step h.allocated hstep
  live := live_nonneg_step h.live hstep
  gone := by
    intro tid thread hget hrolled hmem
    rcases rolledBack_of_step hstep hget hrolled with ⟨old, hold, hrecord, hbefore⟩ | hdeletes
    · rcases agents_of_step hstep hmem with hmem | hnew
      · exact h.gone tid old hold hbefore (hrecord ▸ hmem)
      · have hlt := h.allocated.spawns old (List.mem_of_getElem? hold)
        rw [hrecord] at hlt
        omega
    · rw [registry_of_deletes hstep hdeletes] at hmem
      exact rollbackAdmission_not_mem hmem

theorem spawnInv_of_reachable {config : SubagentConfig}
    (h : ReachableBy step Identified (.init config) w) : w.SpawnInv := by
  refine h.invariant (I := SpawnInv) ?_ fun _ _ _ hinv hok hstep => spawnInv_step hinv hok hstep
  refine ⟨init_slotInv config, init_allocated config, le_refl 0, ?_⟩
  intro tid thread hget
  cases hget

/-- The move changes nothing beside the record. -/
def LeavesOthers (w : RegistryWorld) (record : SubagentRecord) (event : RegistryEvent) : Prop :=
  ∀ w', w.step event = some w' →
    w'.registry.holdingsWithout record = w.registry.holdingsWithout record

/-- The transaction of a rollback leaves the holdings without its record. -/
theorem holdings_of_deletes (hok : w.Identified event) (hstep : w.step event = some w')
    (hdeletes : w.deletes event = some record) :
    w'.registry.holdings = w.registry.holdingsWithout record := by
  rw [registry_of_deletes hstep hdeletes]
  exact holdings_rollbackAdmission (hok.2 record hdeletes)

end RegistryWorld

/-- **A failed spawn leaves no trace but the count of its turn.**  A rejected admission changes
nothing.  Otherwise the holdings without the new record are those before the admission, with the
spawn counted; no move of the spawn changes them; its rollback leaves them and nothing else, so that
the registry is what it was, if the others left it alone.  A spawn that does not return ends after
its rollback; then the record is not registered and holds no slot. -/
theorem failed_spawn_leaves_no_trace {config : SubagentConfig} {w₀ w₁ : RegistryWorld}
    {request : SpawnRequest}
    (h₀ : ReachableBy RegistryWorld.step RegistryWorld.Identified (.init config) w₀)
    (hstep : w₀.step (.spawn request) = some w₁) :
    (∀ error, w₀.registry.admitSubagent request = .error error → w₁ = w₀) ∧
    ∀ record admitted, w₀.registry.admitSubagent request = .ok (record, admitted) →
      w₀.Identified (.spawn request) →
      w₁.registry.holdingsWithout record = w₀.registry.holdings.counted request.rootTurnId ∧
      (∀ w, ReachableBy RegistryWorld.step RegistryWorld.Identified w₁ w →
        (∀ event w', w.Identified event → w.step event = some w' → w.ofSpawn record event →
          w'.registry.holdingsWithout record = w.registry.holdingsWithout record) ∧
        (∀ event w', w.Identified event → w.step event = some w' →
          w.deletes event = some record →
          w'.registry.holdings = w.registry.holdingsWithout record) ∧
        (∀ event w' (tid : ℕ) (thread : SpawnThread), w.step event = some w' →
          w'.spawns[tid]? = some thread → thread.record = record → thread.pc = .done →
          ∃ old, w.spawns[tid]? = some old ∧ old.record = record ∧
            (old.pc = .done ∨ event = .spawned tid .returned ∨ old.pc.rolledBack = true)) ∧
        ∀ (tid : ℕ) (thread : SpawnThread), w.spawns[tid]? = some thread →
          thread.record = record → thread.pc.rolledBack = true →
          record ∉ w.registry.registryAgents ∧
            phaseHoldsSlot (w.registry.recordPhase record) = false) ∧
      ∀ w, ReachableBy RegistryWorld.step
          (fun w event => w.Identified event ∧
            (w.ofSpawn record event ∨ w.LeavesOthers record event)) w₁ w →
        ∀ event w', w.Identified event → w.step event = some w' →
          w.deletes event = some record →
          w'.registry.holdings = w₀.registry.holdings.counted request.rootTurnId := by
  have hinv := RegistryWorld.spawnInv_of_reachable h₀
  have hadmits := hstep
  simp only [RegistryWorld.step] at hstep
  split at hstep
  case h_1 => cases hstep
  constructor
  · intro error herror
    rw [herror] at hstep
    cases hstep
    rfl
  · intro record admitted hadmission hok
    rw [hadmission] at hstep
    cases hstep
    have hwithout : admitted.holdingsWithout record =
        w₀.registry.holdings.counted request.rootTurnId :=
      holdingsWithout_admitSubagent hadmission (hok.1 request.agentId rfl) hinv.slots.accounts.ids
        hinv.live
    refine ⟨hwithout, ?_, ?_⟩
    · intro w hw
      have hinv := RegistryWorld.spawnInv_of_reachable ((h₀.tail hok hadmits).trans hw)
      refine ⟨fun event w' hevent hst hspawn =>
          RegistryWorld.holdingsWithout_of_spawn hevent hspawn hst,
        fun event w' hevent hst hdeletes =>
          RegistryWorld.holdings_of_deletes hevent hst hdeletes, ?_, ?_⟩
      · intro event w' tid thread hst hget hrecord hdone
        obtain ⟨old, hold, hsame, hcases⟩ := RegistryWorld.done_of_step hst hget hdone
        exact ⟨old, hold, hsame.trans hrecord, hcases⟩
      · intro tid thread hget hrecord hrolled
        have hgone : record ∉ w.registry.registryAgents :=
          hrecord ▸ hinv.gone tid thread hget hrolled
        exact ⟨hgone, Bool.eq_false_iff.mpr (mt (hinv.slots.accounts.owned record) hgone)⟩
    · intro w hw event w' hevent hdelete hdeletes
      have hsame : w.registry.holdingsWithout record = admitted.holdingsWithout record := by
        refine hw.invariant (I := fun w => w.registry.holdingsWithout record =
          admitted.holdingsWithout record) rfl fun v event v' hv hok hst => ?_
        rcases hok.2 with hspawn | hleaves
        · exact (RegistryWorld.holdingsWithout_of_spawn hok.1 hspawn hst).trans hv
        · exact (hleaves v' hst).trans hv
      rw [RegistryWorld.holdings_of_deletes hevent hdelete hdeletes, hsame, hwithout]

theorem failed_spawn_leaves_no_trace_in_failedSpawn :
    ∃ w₁ w w', (RegistryWorld.init defaultSubagentConfig).step
        (.spawn (exampleSpawn ['x'] ['a'] (some 0))) = some w₁ ∧
      w₁.step (.spawned 0 (.prepared false)) = some w ∧ w.step (.spawned 0 .proceed) = some w' ∧
      w'.registry.holdings =
        (RegistryWorld.init defaultSubagentConfig).registry.holdings.counted (some 0) := by
  refine ⟨_, _, _, rfl, rfl, rfl, ?_⟩
  have hinit : ReachableBy RegistryWorld.step RegistryWorld.Identified
      (.init defaultSubagentConfig) (.init defaultSubagentConfig) := .refl
  have hspawned := (failed_spawn_leaves_no_trace hinit rfl).2 (exampleRecord 0 ['x'] ['a']) _
    (rfl : (RegistryWorld.init defaultSubagentConfig).registry.admitSubagent
      (exampleSpawn ['x'] ['a'] (some 0)) = _) (by decide +kernel)
  refine hspawned.2.2 _ (.tail (e := .spawned 0 (.prepared false)) .refl ⟨?_, .inl ?_⟩ rfl)
    (.spawned 0 .proceed) _ ?_ rfl rfl
  · decide +kernel
  · rfl
  · decide +kernel

/-- A root turn may spawn one agent. -/
def singleSpawnConfig : SubagentConfig :=
  { defaultSubagentConfig with maxSpawnedPerTurn := some 1 }

/-- The preparation of a spawn fails, and the admission is rolled back to the end. -/
def failedSpawn : List RegistryEvent :=
  [.spawn (exampleSpawn ['x'] ['a'] (some 0)), .spawned 0 (.prepared false), .spawned 0 .proceed,
    .spawned 0 .proceed, .spawned 0 .proceed]

/-- **The turn pays for the failed spawn**: its count is one more, and its next spawn is refused. -/
theorem failed_spawn_counted :
    (RegistryWorld.init singleSpawnConfig).registry.registryRootTurnSpawnCounts 0 = 0 ∧
    ∃ w, ReachableBy RegistryWorld.step RegistryWorld.Identified
        (.init singleSpawnConfig) w ∧
      w.spawns[0]?.map (·.pc) = some .done ∧
      w.registry.registryRootTurnSpawnCounts 0 = 1 ∧
      (∀ record admitted, w.registry.admitSubagent (exampleSpawn ['y'] ['b'] (some 0)) ≠
        .ok (record, admitted)) := by
  refine ⟨rfl, ?_⟩
  have hrun : (Machine.run (guarded RegistryWorld.Identified RegistryWorld.step)
      (.init singleSpawnConfig) failedSpawn).any
        (fun w => w.spawns[0]?.map (·.pc) == some .done &&
          w.registry.registryRootTurnSpawnCounts 0 == 1 &&
          !(w.registry.admitSubagent (exampleSpawn ['y'] ['b'] (some 0))).toBool) = true := by
    decide +kernel
  obtain ⟨w, hw, hlast⟩ := exists_reachableBy_of_run hrun
  simp only [Bool.and_eq_true, beq_iff_eq, Bool.not_eq_true'] at hlast
  refine ⟨w, hw, hlast.1.1, hlast.1.2, fun record admitted hadmitted => ?_⟩
  rw [hadmitted] at hlast
  cases hlast.2

end HaskellAgent
