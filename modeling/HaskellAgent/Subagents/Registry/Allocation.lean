import HaskellAgent.Subagents.Registry.Effects

/-!
# New records are new

A record is created with the next reference number, so no thread works on it before.  `Allocated`
says that every record a thread or the registry refers to has a smaller number than the next one.
-/

open List Option

namespace HaskellAgent

open Registry

/-- The record the holder may start a supervisor for. -/
def LockedOp.startable : LockedOp → Option SubagentRecord
  | .restoreFound record _ => some record
  | .restoreReset record _ _ => some record
  | .restoreWrite record _ _ => some record
  | .restoreReopen record _ => some record
  | .restoreIdle record _ => some record
  | .startCheck record _ => some record
  | .startThread record _ => some record
  | _ => none

/-- The registered records, and those the holder may start, have been created. -/
structure Registry.Numbered (reg : Registry) (holder : Option LockedOp) : Prop where
  agents : ∀ r ∈ reg.registryAgents, r.recordRef < reg.nextRef
  holder : ∀ r ∈ holder.bind LockedOp.startable, r.recordRef < reg.nextRef

namespace Registry.Numbered

variable {reg reg' : Registry} {holder holder' : Option LockedOp}

/-- A move that registers no record. -/
theorem mono (h : reg.Numbered holder) (hagents : ∀ r ∈ reg'.registryAgents, r ∈ reg.registryAgents)
    (hnext : reg.nextRef ≤ reg'.nextRef)
    (hholder : ∀ r ∈ holder'.bind LockedOp.startable,
      r ∈ holder.bind LockedOp.startable ∨ r ∈ reg.registryAgents) : reg'.Numbered holder' where
  agents := fun r hr => lt_of_lt_of_le (h.agents r (hagents r hr)) hnext
  holder := by
    intro r hr
    rcases hholder r hr with hr | hr
    · exact lt_of_lt_of_le (h.holder r hr) hnext
    · exact lt_of_lt_of_le (h.agents r hr) hnext

/-- The same, where the holder starts nothing. -/
theorem idle (h : reg.Numbered holder) (hagents : ∀ r ∈ reg'.registryAgents, r ∈ reg.registryAgents)
    (hnext : reg.nextRef ≤ reg'.nextRef)
    (hholder : holder'.bind LockedOp.startable = none) : reg'.Numbered holder' := by
  refine h.mono hagents hnext fun r hr => ?_
  rw [hholder] at hr
  cases hr

/-- A new record is registered. -/
theorem insert (h : reg.Numbered holder) {record : SubagentRecord}
    (hrecord : record.recordRef = reg.nextRef)
    (hagents : reg'.registryAgents = KeyedList.insert (·.recordId) record reg.registryAgents)
    (hnext : reg'.nextRef = reg.nextRef + 1)
    (hholder : ∀ r ∈ holder'.bind LockedOp.startable, r = record) : reg'.Numbered holder' where
  agents := by
    intro r hr
    rw [hagents, KeyedList.mem_insert] at hr
    rw [hnext]
    rcases hr with rfl | ⟨hr, -⟩
    -- the record itself has the last number given out
    · omega
    · exact Nat.lt_succ_of_lt (h.agents r hr)
  holder := by
    intro r hr
    rw [hholder r hr, hnext, hrecord]
    exact Nat.lt_succ_self _

end Registry.Numbered

variable {reg : Registry} {record : SubagentRecord}

/-- The calls begin with registered records. -/
theorem beginOp_numbered (h : reg.Numbered none) (call : LifecycleRequest) :
    (beginOp reg call).1.Numbered (beginOp reg call).2 := by
  cases call with
  | sendInput agentId turn senderPath content metadata interrupt =>
    simp only [beginOp]
    split
    · exact h
    · exact h.idle (fun _ hr => hr) le_rfl (by cases reg.lookup agentId <;> rfl)
  | queueMessage agentId turn senderPath content metadata =>
    simp only [beginOp, Registry.queueMessage]
    repeat' split
    all_goals first
      | exact h
      | skip
    rename_i hqueued
    repeat' split at hqueued
    all_goals cases hqueued
    exact h.idle (fun _ hr => hr) le_rfl rfl
  | closeSubagent agentId | interruptSubagent agentId =>
    exact h.idle (fun _ hr => hr) le_rfl (by simp only [beginOp]; cases reg.lookup agentId <;> rfl)
  | restoreSubagent request =>
    simp only [beginOp]
    split
    · exact h
    · split
      · rename_i record hlookup
        refine h.mono (fun _ hr => hr) le_rfl fun r hr => ?_
        cases hr
        exact .inr (KeyedList.mem_of_lookup hlookup)
      · exact h.idle (fun _ hr => hr) le_rfl rfl
  | requestSubagentSuspension agentId now deadline reason =>
    simp only [beginOp]
    repeat' split
    all_goals exact h.idle (fun _ hr => hr) le_rfl rfl
  | _ => exact h.idle (fun _ hr => hr) le_rfl rfl

theorem afterResume_startable {work : Work} {due : Option DueRun} {ok : Bool} :
    (afterResume record work due ok).bind LockedOp.startable = none := by
  cases due with
  | none => rfl
  | some due =>
    simp only [afterResume, map_some]
    split <;> rfl

/-- The operations that only look at the registry. -/
theorem advance_numbered {op : LockedOp} {ok : Bool} {next : Registry × Option LockedOp}
    (h : reg.Numbered (some op)) (hstep : op.advance reg ok = some next) :
    next.1.Numbered next.2 := by
  have keep : ∀ r ∈ reg.registryAgents, r ∈ reg.registryAgents := fun _ hr => hr
  cases op with
  | restartSchedule record work =>
    simp only [LockedOp.advance] at hstep
    split at hstep
    · cases hstep
      exact h.idle keep le_rfl rfl
    · split at hstep
      · cases hstep
        exact h.idle keep le_rfl rfl
      · rename_i scheduled hschedule
        cases hstep
        obtain ⟨-, -, rfl⟩ := scheduleIdleWork_ok hschedule
        exact h.idle keep le_rfl rfl
  | resumeSchedule record work due =>
    simp only [LockedOp.advance] at hstep
    split at hstep
    · cases hstep
      exact h.idle keep le_rfl afterResume_startable
    · rename_i scheduled hschedule
      cases hstep
      obtain ⟨-, -, rfl⟩ := scheduleIdleWork_ok hschedule
      exact h.idle keep le_rfl afterResume_startable
  | resumeAdmit record work due =>
    simp only [LockedOp.advance] at hstep
    split at hstep
    all_goals cases hstep
    · exact h.idle keep le_rfl afterResume_startable
    · exact h.idle keep le_rfl rfl
  | resumePersist record work due =>
    simp only [LockedOp.advance] at hstep
    split at hstep
    all_goals cases hstep
    · exact h.idle keep le_rfl rfl
    · exact h.idle keep le_rfl afterResume_startable
  | sendQueue record work interrupt =>
    simp only [LockedOp.advance] at hstep
    split at hstep
    all_goals cases hstep
    · exact h.idle keep le_rfl rfl
    · exact h.idle keep le_rfl (by cases interrupt <;> rfl)
  | dueNext now records =>
    cases records with
    | nil =>
      cases hstep
      exact h.idle keep le_rfl rfl
    | cons record rest =>
      simp only [LockedOp.advance] at hstep
      split at hstep
      all_goals cases hstep
      · exact h.idle keep le_rfl rfl
      · exact h.idle keep le_rfl rfl
  | dueRestore record work due =>
    cases hstep
    exact h.idle keep le_rfl (by cases due <;> rfl)
  | closeFound record =>
    obtain ⟨below, -, rfl⟩ := map_eq_some_iff.mp hstep
    exact h.idle keep le_rfl rfl
  | interruptSettle record =>
    rw [LockedOp.advance, some.injEq] at hstep
    subst hstep
    have hholder : (if (reg.interruptPending record).1 then none
        else some (LockedOp.interruptCancel record)).bind LockedOp.startable = none := by
      split <;> rfl
    have hrely := interruptPending_rely reg record
    exact h.idle hrely.agents hrely.nextRef.ge hholder
  -- the restored record is registered, and stays what the holder may start
  | restoreFound record request =>
    simp only [LockedOp.advance] at hstep
    split at hstep
    all_goals cases hstep
    · exact h.idle keep le_rfl rfl
    · exact h.idle keep le_rfl rfl
    · exact h.idle keep le_rfl rfl
    · exact h.mono keep le_rfl fun r hr => .inl hr
  | restoreReset record request wasClosed =>
    cases hstep
    exact h.mono keep le_rfl fun r hr => .inl hr
  | restoreWrite record request wasClosed =>
    cases hstep
    cases wasClosed with
    | false => exact h.idle keep le_rfl rfl
    | true => exact h.mono keep le_rfl fun r hr => .inl hr
  | restoreReopen record request =>
    cases hstep
    exact h.mono keep le_rfl fun r hr => .inl hr
  | restoreInsert request =>
    simp only [LockedOp.advance] at hstep
    split at hstep
    · cases hstep
      exact h.idle keep le_rfl rfl
    · rename_i record restored hrestore
      cases hstep
      obtain ⟨href, -, paths, rfl⟩ := restoreMissing_ok hrestore
      exact h.insert href rfl rfl fun r hr => (some.inj hr).symm
  | restoreIdle record request =>
    cases hstep
    dsimp only
    split
    · exact h.mono keep le_rfl fun r hr => .inl hr
    · exact h.mono keep le_rfl fun r hr => .inl hr
  | _ =>
    simp only [LockedOp.advance] at hstep
    repeat' split at hstep
    all_goals first
      | cases hstep; exact h.idle keep le_rfl rfl
      | cases hstep

theorem beginOp_nextRef (reg : Registry) (call : LifecycleRequest) :
    (beginOp reg call).1.nextRef = reg.nextRef := by
  cases call with
  | queueMessage agentId turn senderPath content metadata =>
    simp only [beginOp, Registry.queueMessage]
    repeat' split
    all_goals first
      | rfl
      | skip
    rename_i hqueued
    repeat' split at hqueued
    all_goals cases hqueued
    rfl
  | _ =>
    simp only [beginOp]
    repeat' split
    all_goals rfl

namespace RegistryWorld

variable {w w' : RegistryWorld}

/-- The records in use have been created. -/
structure Allocated (w : RegistryWorld) : Prop where
  numbered : w.registry.Numbered w.lifecycle
  supervisors : ∀ thread ∈ w.supervisors, thread.owner.recordRef < w.registry.nextRef
  spawns : ∀ thread ∈ w.spawns, thread.record.recordRef < w.registry.nextRef

theorem init_allocated (config : SubagentConfig) : (init config).Allocated where
  numbered := ⟨fun _ hr => (nomatch hr), fun _ hr => (nomatch hr)⟩
  supervisors := fun _ hr => nomatch hr
  spawns := fun _ hr => nomatch hr

/-- A move that creates no record and no thread for a new one. -/
theorem Allocated.mono (h : w.Allocated) (hnumbered : w'.registry.Numbered w'.lifecycle)
    (hnext : w'.registry.nextRef = w.registry.nextRef)
    (hsupervisors : ∀ thread ∈ w'.supervisors, ∃ old ∈ w.supervisors, thread.owner = old.owner)
    (hspawns : ∀ thread ∈ w'.spawns, ∃ old ∈ w.spawns, thread.record = old.record) :
    w'.Allocated where
  numbered := hnumbered
  supervisors := by
    intro thread hthread
    obtain ⟨old, hold, howner⟩ := hsupervisors thread hthread
    rw [howner, hnext]
    exact h.supervisors old hold
  spawns := by
    intro thread hthread
    obtain ⟨old, hold, hrecord⟩ := hspawns thread hthread
    rw [hrecord, hnext]
    exact h.spawns old hold

theorem mem_setSpawn {tid : ℕ} {pc : SpawnPc} {thread : SpawnThread}
    (h : thread ∈ w.setSpawn tid pc) : ∃ old ∈ w.spawns, thread.record = old.record := by
  unfold setSpawn at h
  obtain ⟨i, hi⟩ := mem_iff_getElem?.mp h
  rw [List.getElem?_modify] at hi
  obtain ⟨old, hold, hthread⟩ := map_eq_some_iff.mp hi
  refine ⟨old, mem_iff_getElem?.mpr ⟨i, hold⟩, ?_⟩
  -- only the program counter of the modified entry changes
  rw [← hthread]
  split <;> rfl

theorem mem_set {sid : ℕ} {next thread : SupervisorThread}
    (h : thread ∈ w.supervisors.set sid next) : thread ∈ w.supervisors ∨ thread = next :=
  mem_or_eq_of_mem_set h

section

variable (h : w.Allocated)
include h

theorem supervise_allocated {sid : ℕ} {thread : SupervisorThread} {event : SupervisorEvent}
    (hget : w.supervisors[sid]? = some thread)
    (hstep : w.supervise sid thread event = some w') : w'.Allocated := by
  obtain ⟨heffect, ⟨next, hset, hmove⟩, hframe⟩ := supervise_case hget hstep
  refine h.mono ?_ heffect.rely.nextRef ?_ ?_
  · refine h.numbered.mono heffect.rely.agents heffect.rely.nextRef.ge fun r hr => ?_
    rcases hframe.lifecycle with hlock | hlock | ⟨request, -, hlock⟩
    all_goals rw [hlock] at hr
    · exact .inl hr
    · cases hr
    · cases hr
  · intro t ht
    rw [hset] at ht
    rcases mem_set ht with ht | rfl
    · exact ⟨t, ht, rfl⟩
    · exact ⟨thread, mem_of_getElem? hget, hmove.owner⟩
  · intro t ht
    rw [hframe.spawns] at ht
    exact ⟨t, ht, rfl⟩

theorem spawnStep_allocated {tid : ℕ} {thread : SpawnThread} {event : SpawnEvent}
    (hget : w.spawns[tid]? = some thread)
    (hstep : w.spawnStep tid thread event = some w') : w'.Allocated := by
  have hrely := spawnStep_rely hstep
  obtain ⟨⟨hsupervisors, -, -⟩, ⟨pc, hspawns⟩, hlock⟩ := spawnStep_frame hstep
  refine h.mono ?_ hrely.nextRef ?_ ?_
  · refine ⟨fun r hr => hrely.nextRef ▸ h.numbered.agents r (hrely.agents r hr), fun r hr => ?_⟩
    rw [hrely.nextRef]
    rcases hlock with hlock | ⟨-, hlock⟩
    all_goals rw [hlock] at hr
    · exact h.numbered.holder r hr
    · cases hr
      exact h.spawns thread (mem_of_getElem? hget)
  · intro t ht
    rw [hsupervisors] at ht
    exact ⟨t, ht, rfl⟩
  · intro t ht
    rw [hspawns] at ht
    exact mem_setSpawn ht

/-- The ends of `startRecordSupervisor`. -/
theorem Allocated.startEnd (hnumbered : w.registry.Numbered w'.lifecycle)
    (hregistry : w'.registry = w.registry) (hsupervisors : w'.supervisors = w.supervisors)
    (hspawns : w'.spawns = w.spawns ∨ ∃ tid pc, w'.spawns = w.setSpawn tid pc) :
    w'.Allocated := by
  refine h.mono (hregistry ▸ hnumbered) (congrArg nextRef hregistry) ?_ ?_
  · intro t ht
    rw [hsupervisors] at ht
    exact ⟨t, ht, rfl⟩
  · intro t ht
    rcases hspawns with hspawns | ⟨tid, pc, hspawns⟩
    all_goals rw [hspawns] at ht
    · exact ⟨t, ht, rfl⟩
    · exact mem_setSpawn ht

theorem StartEnd.allocated {caller : StartCaller} (hend : StartEnd w record caller w') :
    w'.Allocated := by
  cases hend with
  | spawn =>
    exact h.startEnd (h.numbered.idle (fun _ hr => hr) le_rfl rfl) rfl rfl (.inr ⟨_, _, rfl⟩)
  | _ => exact h.startEnd (h.numbered.idle (fun _ hr => hr) le_rfl rfl) rfl rfl (.inl rfl)

/-- The holder changes the registry as it may rely on itself, and starts nothing. -/
theorem Allocated.of_rely (hrely : Rely w.registry w'.registry)
    (hholder : w'.lifecycle.bind LockedOp.startable = none)
    (hsupervisors : w'.supervisors = w.supervisors) (hspawns : w'.spawns = w.spawns) :
    w'.Allocated := by
  refine h.mono (h.numbered.idle hrely.agents hrely.nextRef.ge hholder) hrely.nextRef ?_ ?_
  · rw [hsupervisors]
    exact fun t ht => ⟨t, ht, rfl⟩
  · rw [hspawns]
    exact fun t ht => ⟨t, ht, rfl⟩

variable {op : LockedOp}

theorem startStep_allocated {ok : Bool}
    (hop : w.lifecycle = some op) (hstep : w.startStep ok op = some w') : w'.Allocated := by
  cases startStep_case hstep with
  | ended hstart hend => exact hend.allocated h
  | checked =>
    refine h.startEnd (h.numbered.mono (fun _ hr => hr) le_rfl fun r hr => ?_) rfl rfl (.inl rfl)
    rw [hop]
    exact .inl hr
  | @started record =>
    -- the thread is started for the record the holder was about to start
    have hrecord : record.recordRef < w.registry.nextRef :=
      h.numbered.holder record (by rw [hop]; rfl)
    refine ⟨h.numbered.idle (fun _ hr => hr) le_rfl rfl, ?_, h.spawns⟩
    intro thread hthread
    rcases mem_append.mp hthread with hthread | hthread
    · exact h.supervisors thread hthread
    · rw [mem_singleton.mp hthread]
      exact hrecord
  | joined hnext => exact h.of_rely (JoinPc.step_rely hnext) rfl rfl rfl
  | rollback hnext => exact h.of_rely (RollbackPc.step_rely hnext) rfl rfl rfl
  | _ => exact h.of_rely (.refl _) rfl rfl rfl

theorem workerStep_allocated
    (hstep : w.workerStep record op = some w') : w'.Allocated := by
  unfold workerStep at hstep
  split at hstep
  · split at hstep
    · obtain ⟨next, hnext, rfl⟩ := map_eq_some_iff.mp hstep
      exact h.of_rely (ShutdownPc.step_rely hnext) rfl rfl rfl
    · cases hstep
  · split at hstep
    · obtain ⟨next, hnext, rfl⟩ := map_eq_some_iff.mp hstep
      exact h.of_rely (JoinPc.step_rely hnext) rfl rfl rfl
    · cases hstep
  · split at hstep
    · have hrely := interruptStep_rely hstep
      obtain ⟨next, hlock, hspawns, -, -, hcase⟩ := interruptStep_case hstep
      have hholder : w'.lifecycle.bind LockedOp.startable = none := by
        rw [hlock]
        rfl
      rcases hcase with ⟨-, -, hthreads, -⟩ | ⟨-, hthreads, -⟩ | ⟨-, -, -, hthreads⟩ |
        ⟨-, -, hthreads, -⟩
      · exact h.of_rely hrely hholder hthreads hspawns
      · exact h.of_rely hrely hholder hthreads hspawns
      · -- the request is noted in the threads, which keep their owners
        refine h.mono (h.numbered.idle hrely.agents hrely.nextRef.ge hholder) hrely.nextRef ?_ ?_
        · intro t ht
          rw [hthreads] at ht
          obtain ⟨old, hold, rfl⟩ := List.mem_map.mp ht
          refine ⟨old, hold, ?_⟩
          split <;> rfl
        · rw [hspawns]
          exact fun t ht => ⟨t, ht, rfl⟩
      · exact h.of_rely hrely hholder hthreads hspawns
    · cases hstep
  · cases hstep

theorem concludeStep_allocated
    (hstep : w.concludeStep op = some w') : w'.Allocated := by
  have hfree : w.registry.Numbered none := h.numbered.idle (fun _ hr => hr) le_rfl rfl
  unfold concludeStep at hstep
  split at hstep
  · rename_i reset records pc
    split at hstep
    · cases hstep
      cases reset with
      | false => exact ⟨hfree, h.supervisors, h.spawns⟩
      | true => exact ⟨hfree.idle (fun _ hr => nomatch hr) le_rfl rfl, h.supervisors, h.spawns⟩
    · cases hstep
  · split at hstep
    · cases hstep
      exact h.of_rely (.of_phase rfl rfl rfl rfl) rfl rfl rfl
    · cases hstep
  · split at hstep
    · split at hstep
      all_goals
        cases hstep
        exact h.of_rely (.of_phase rfl rfl rfl rfl) rfl rfl rfl
    · cases hstep
  · cases hstep

theorem abandonStep_allocated
    (hstep : w.abandonStep op = some w') : w'.Allocated := by
  unfold abandonStep at hstep
  split at hstep
  · cases hstep
  all_goals cases hstep
  · exact h.of_rely (.refl _) (by dsimp only; split <;> rfl) rfl rfl
  · exact h.of_rely (.refl _) (by dsimp only; split <;> rfl) rfl rfl
  · exact h.of_rely (.refl _) (by dsimp only; split <;> rfl) rfl rfl
  · exact h.of_rely (.refl _) (by dsimp only; split <;> rfl) rfl rfl
  · exact h.of_rely (.of_phase rfl rfl rfl rfl) rfl rfl rfl
  · exact (startThrown_end w ‹_› _).allocated h
  · exact (startThrown_end w ‹_› _).allocated h
  · exact h.of_rely (.refl _) rfl rfl rfl
  · exact (startThrown_end w ‹_› _).allocated h
  · exact h.of_rely (.refl _) rfl rfl rfl

/-- **Every move keeps it.** -/
theorem allocated_step {event : RegistryEvent} (hstep : w.step event = some w') :
    w'.Allocated := by
  cases event with
  | supervisor sid event =>
    obtain ⟨thread, hget, hstep⟩ := bind_eq_some_iff.mp hstep
    exact supervise_allocated h hget hstep
  | spawn request =>
    simp only [step] at hstep
    split at hstep
    · cases hstep
    · rename_i hlock
      split at hstep
      · cases hstep
        exact h
      · rename_i record admitted hadmission
        cases hstep
        obtain ⟨-, -, href, -, work, -, rfl⟩ := admitSubagent_ok hadmission
        have hnumbered := h.numbered
        rw [hlock] at hnumbered
        refine ⟨?_, fun t ht => Nat.lt_succ_of_lt (h.supervisors t ht), fun t ht => ?_⟩
        · dsimp only
          rw [hlock]
          exact hnumbered.insert href rfl rfl fun r hr => by cases hr
        · rcases mem_append.mp ht with ht | ht
          · exact Nat.lt_succ_of_lt (h.spawns t ht)
          · rw [mem_singleton.mp ht]
            exact href ▸ Nat.lt_succ_self _
  | spawned tid event =>
    obtain ⟨thread, hget, hstep⟩ := bind_eq_some_iff.mp hstep
    exact spawnStep_allocated h hget hstep
  | request call =>
    simp only [step] at hstep
    split at hstep
    · cases hstep
    · rename_i hlock
      cases hstep
      have hnumbered := h.numbered
      rw [hlock] at hnumbered
      have hbegin := beginOp_numbered hnumbered call
      have hnext : (beginOp w.registry call).1.nextRef = w.registry.nextRef := beginOp_nextRef _ _
      exact h.mono hbegin hnext (fun t ht => ⟨t, ht, rfl⟩) fun t ht => ⟨t, ht, rfl⟩
  | advance ok =>
    obtain ⟨op, hop, hstep⟩ := bind_eq_some_iff.mp hstep
    obtain ⟨next, hnext, rfl⟩ := map_eq_some_iff.mp hstep
    have hnumbered := h.numbered
    rw [hop] at hnumbered
    have hle := (advance_move hnext).nextRef
    exact ⟨advance_numbered hnumbered hnext, fun t ht => lt_of_lt_of_le (h.supervisors t ht) hle,
      fun t ht => lt_of_lt_of_le (h.spawns t ht) hle⟩
  | start ok =>
    obtain ⟨op, hop, hstep⟩ := bind_eq_some_iff.mp hstep
    exact startStep_allocated h hop hstep
  | worker record =>
    obtain ⟨op, -, hstep⟩ := bind_eq_some_iff.mp hstep
    exact workerStep_allocated h hstep
  | conclude =>
    obtain ⟨op, -, hstep⟩ := bind_eq_some_iff.mp hstep
    exact concludeStep_allocated h hstep
  | abandon =>
    obtain ⟨op, -, hstep⟩ := bind_eq_some_iff.mp hstep
    exact abandonStep_allocated h hstep
  | wait caller targets =>
    cases hstep
    exact ⟨⟨h.numbered.agents, h.numbered.holder⟩, h.supervisors, h.spawns⟩
  | waiting wid event =>
    obtain ⟨thread, -, hstep⟩ := bind_eq_some_iff.mp hstep
    have hrely := waitStep_rely hstep
    obtain ⟨hlock, hsupervisors, hspawns, -⟩ := waitStep_frame hstep
    refine h.mono ?_ hrely.nextRef ?_ ?_
    · rw [hlock]
      exact h.numbered.mono hrely.agents hrely.nextRef.ge fun r hr => .inl hr
    · rw [hsupervisors]
      exact fun t ht => ⟨t, ht, rfl⟩
    · rw [hspawns]
      exact fun t ht => ⟨t, ht, rfl⟩
  | setMaxConcurrent limit | beginRootTurn =>
    cases hstep
    exact ⟨⟨h.numbered.agents, h.numbered.holder⟩, h.supervisors, h.spawns⟩

end

end RegistryWorld

end HaskellAgent
