import HaskellAgent.Subagents.Registry.AbortedTurns

/-!
# Waits and completions

A completion of a child goes to the mail of its parent, unless the parent waits for the child: then
the wait is to report it.  But `registryActiveWaits` says that a wait is registered, not that it is
still waiting.  A wait that has chosen its result, or has run into its timeout, unregisters in a
later transaction, and a completion in between reaches nobody.  A wait that is still waiting can
miss the completion too: the child is published before it is settled.

The children whose completion was left to a wait are its debt.  A wait with targets pays it with the
statuses of its targets, a wait without from the numbered updates it has not seen.
-/

open List Function KeyedList Machine
open Option hiding max_le

namespace HaskellAgent

open Registry

/-! ### Updates -/

theorem normalizedStatus_final (request : RestoreRequest) :
    isFinalStatus request.normalizedStatus := by
  unfold RestoreRequest.normalizedStatus
  cases request.restoredStatus <;> rfl

/-- The status an idle phase shows is final. -/
def SubagentPhase.IdleFinal : SubagentPhase → Prop
  | .idle status _ => isFinalStatus status
  | _ => True

theorem normalizedPhase_idleFinal (request : RestoreRequest) :
    request.normalizedPhase.IdleFinal := by
  unfold RestoreRequest.normalizedPhase
  split
  · trivial
  · exact normalizedStatus_final request

namespace Registry

/-- What is published is final, and has a number that is not in the future. -/
structure UpdatesOk (reg : Registry) : Prop where
  ids : KeyedList.DistinctKeys (·.recordId) reg.registryAgents
  idle : ∀ r, (reg.recordPhase r).IdleFinal
  updates : ∀ r seqNo status, reg.recordLastUpdate r = some (seqNo, status) → isFinalStatus status
  numbers : ∀ r ∈ reg.registryAgents, ∀ seqNo status,
    reg.recordLastUpdate r = some (seqNo, status) → seqNo ≤ reg.registryNextUpdateSeq
  cursors : ∀ caller, reg.registryWaitCursors caller ≤ reg.registryNextUpdateSeq

/-- The update of a record after a move: the same, a new one, or none for a new record. -/
inductive UpdateCase (reg reg' : Registry) (r : SubagentRecord) : Prop
  | same (h : reg'.recordLastUpdate r = reg.recordLastUpdate r)
  | published {status : SubagentStatus}
      (h : reg'.recordLastUpdate r = some (reg.registryNextUpdateSeq + 1, status))
      (hfinal : isFinalStatus status)
      (hseq : reg'.registryNextUpdateSeq = reg.registryNextUpdateSeq + 1)
  | created (h : reg'.recordLastUpdate r = none) (href : r.recordRef = reg.nextRef)

/-- What a move other than a reset or a wait does to the updates. -/
structure UpdateMove (reg reg' : Registry) : Prop where
  ids : KeyedList.DistinctKeys (·.recordId) reg.registryAgents →
    KeyedList.DistinctKeys (·.recordId) reg'.registryAgents
  idle : ∀ r, (reg.recordPhase r).IdleFinal → (reg'.recordPhase r).IdleFinal
  updates : ∀ r, UpdateCase reg reg' r
  agents : ∀ r ∈ reg'.registryAgents, r ∈ reg.registryAgents ∨ reg'.recordLastUpdate r = none
  seq : reg.registryNextUpdateSeq ≤ reg'.registryNextUpdateSeq
  cursors : reg'.registryWaitCursors = reg.registryWaitCursors

variable {reg reg' : Registry} {record : SubagentRecord}

theorem UpdateMove.ok (hmove : UpdateMove reg reg') (h : reg.UpdatesOk) : reg'.UpdatesOk where
  ids := hmove.ids h.ids
  idle := fun r => hmove.idle r (h.idle r)
  updates := by
    intro r seqNo status hr
    cases hmove.updates r with
    | same hsame => exact h.updates r seqNo status (hsame ▸ hr)
    | published hnew hfinal =>
      rw [hnew] at hr
      cases hr
      exact hfinal
    | created hnone =>
      rw [hnone] at hr
      cases hr
  numbers := by
    intro r hr seqNo status hupdate
    cases hmove.updates r with
    | same hsame =>
      rcases hmove.agents r hr with hr | hnone
      · exact (h.numbers r hr seqNo status (hsame ▸ hupdate)).trans hmove.seq
      · rw [hnone] at hupdate
        cases hupdate
    | published hnew hfinal hseq =>
      rw [hnew] at hupdate
      cases hupdate
      exact hseq.ge
    | created hnone =>
      rw [hnone] at hupdate
      cases hupdate
  cursors := by
    intro caller
    rw [hmove.cursors]
    exact (h.cursors caller).trans hmove.seq

namespace UpdateMove

/-- A move that publishes nothing and registers nothing. -/
theorem quiet (hidle : ∀ r, (reg.recordPhase r).IdleFinal → (reg'.recordPhase r).IdleFinal)
    (hagents : reg'.registryAgents = reg.registryAgents)
    (hupdates : reg'.recordLastUpdate = reg.recordLastUpdate)
    (hseq : reg'.registryNextUpdateSeq = reg.registryNextUpdateSeq)
    (hcursors : reg'.registryWaitCursors = reg.registryWaitCursors) : UpdateMove reg reg' where
  ids := fun h => hagents ▸ h
  idle := hidle
  updates := fun r => .same (congrFun hupdates r)
  agents := fun _ hr => .inl (hagents ▸ hr)
  seq := hseq.ge
  cursors := hcursors

theorem refl (reg : Registry) : UpdateMove reg reg := quiet (fun _ h => h) rfl rfl rfl rfl

/-- One phase is written. -/
theorem idle_update {phase : SubagentPhase}
    (hphase : reg'.recordPhase = Function.update reg.recordPhase record phase)
    (hfinal : phase.IdleFinal) (r : SubagentRecord) (h : (reg.recordPhase r).IdleFinal) :
    (reg'.recordPhase r).IdleFinal := by
  rw [hphase]
  by_cases hr : r = record
  · subst hr
    rwa [update_self]
  · rwa [update_of_ne hr]

theorem of_setPhase {phase : SubagentPhase}
    (hphase : reg'.recordPhase = Function.update reg.recordPhase record phase)
    (hfinal : phase.IdleFinal) (hagents : reg'.registryAgents = reg.registryAgents)
    (hupdates : reg'.recordLastUpdate = reg.recordLastUpdate)
    (hseq : reg'.registryNextUpdateSeq = reg.registryNextUpdateSeq)
    (hcursors : reg'.registryWaitCursors = reg.registryWaitCursors) : UpdateMove reg reg' :=
  quiet (idle_update hphase hfinal) hagents hupdates hseq hcursors

/-- A status is published. -/
theorem of_publish {status : SubagentStatus} (hfinal : isFinalStatus status)
    (hidle : ∀ r, (reg.recordPhase r).IdleFinal → (reg'.recordPhase r).IdleFinal)
    (hagents : reg'.registryAgents = reg.registryAgents)
    (hupdates : reg'.recordLastUpdate = (reg.publishDirectUpdate record status).recordLastUpdate)
    (hseq : reg'.registryNextUpdateSeq = reg.registryNextUpdateSeq + 1)
    (hcursors : reg'.registryWaitCursors = reg.registryWaitCursors) : UpdateMove reg reg' where
  ids := fun h => hagents ▸ h
  idle := hidle
  updates := by
    intro r
    by_cases hr : r = record
    · subst hr
      refine .published ?_ hfinal hseq
      rw [hupdates]
      simp [publishDirectUpdate]
    · refine .same ?_
      rw [hupdates]
      simp [publishDirectUpdate, update_of_ne hr]
  agents := fun r hr => .inl (hagents ▸ hr)
  seq := hseq ▸ Nat.le_succ _
  cursors := hcursors

/-- A record is created and registered. -/
theorem of_insert (phase : SubagentPhase) (href : record.recordRef = reg.nextRef)
    (hfinal : phase.IdleFinal)
    (hphase : reg'.recordPhase = Function.update reg.recordPhase record phase)
    (hagents : reg'.registryAgents = KeyedList.insert (·.recordId) record reg.registryAgents)
    (hupdates : reg'.recordLastUpdate = Function.update reg.recordLastUpdate record none)
    (hseq : reg'.registryNextUpdateSeq = reg.registryNextUpdateSeq)
    (hcursors : reg'.registryWaitCursors = reg.registryWaitCursors) : UpdateMove reg reg' where
  ids := fun h => hagents ▸ h.insert record
  idle := idle_update hphase hfinal
  updates := by
    intro r
    by_cases hr : r = record
    · subst hr
      exact .created (by rw [hupdates, update_self]) href
    · exact .same (by rw [hupdates, update_of_ne hr])
  agents := by
    intro r hr
    rw [hagents, mem_insert] at hr
    rcases hr with rfl | ⟨hr, -⟩
    · exact .inr (by rw [hupdates, update_self])
    · exact .inl hr
  seq := hseq.ge
  cursors := hcursors

theorem of_step {status : SubagentStatus} {step : SupervisorStep} (hfinal : isFinalStatus status)
    (h : StepCase reg record status step reg') : UpdateMove reg reg' := by
  cases h with
  | stop => exact quiet (fun _ h => h) rfl rfl rfl rfl
  | interrupted => exact of_setPhase rfl rfl rfl rfl rfl rfl
  | message => exact of_setPhase rfl trivial rfl rfl rfl rfl
  | rest | complete => exact refl reg
  | settle => exact of_setPhase rfl hfinal rfl rfl rfl rfl

theorem of_effect {thread : SupervisorThread} {move : SupervisorEvent}
    (hfinal : thread.pc.StatusFinal) (h : SupervisorEffect reg thread move reg') :
    UpdateMove reg reg' := by
  cases h with
  | take htaken =>
    obtain ⟨-, rfl⟩ | ⟨work, -, rfl⟩ := takeStartedWork_case htaken
    · exact refl reg
    · exact of_setPhase rfl trivial rfl rfl rfl rfl
  | step hpc hstep =>
    rw [hpc] at hfinal
    exact of_step hfinal hstep
  | finish hpc hfinish =>
    rw [hpc] at hfinal
    exact of_step hfinal (finishSupervisorStep_case hfinish)
  | publish hpc =>
    rename_i work status
    rw [hpc] at hfinal
    obtain ⟨mail, hmail⟩ :=
      publishCompletion_mail reg thread.owner status (completionMetadata work)
    rw [hmail]
    exact of_publish hfinal (fun _ h => h) rfl rfl rfl rfl
  | _ => exact quiet (fun _ h => h) rfl rfl rfl rfl

theorem of_mark (w : RegistryWorld) (kind : InterruptKind) (record : SubagentRecord) :
    UpdateMove w.registry (w.mark kind record).2 := by
  cases kind with
  | abortTurn turn =>
    simp only [RegistryWorld.mark]
    obtain ⟨-, heq⟩ | ⟨work, -, heq⟩ | ⟨owner, -, heq⟩ | ⟨owner, -, heq⟩ :=
      interruptRecordForTurn_case w.registry turn record
    all_goals rw [heq]
    · exact refl _
    · exact of_setPhase rfl rfl rfl rfl rfl rfl
    · exact of_setPhase rfl trivial rfl rfl rfl rfl
    · exact refl _
  | active wasClosed =>
    simp only [RegistryWorld.mark]
    obtain ⟨-, heq⟩ | ⟨work, -, heq⟩ | ⟨owner, -, heq⟩ | ⟨owner, -, heq⟩ :=
      interruptRecord_case w.registry record
    all_goals rw [heq]
    · exact quiet (fun _ h => h) rfl rfl rfl rfl
    · exact of_setPhase rfl rfl rfl rfl rfl rfl
    · exact of_setPhase rfl trivial rfl rfl rfl rfl
    · exact quiet (fun _ h => h) rfl rfl rfl rfl

theorem of_holder {op : LockedOp} (h : HolderMove reg op reg') : UpdateMove reg reg' := by
  cases h with
  | restart hturn hschedule | resume hschedule =>
    obtain ⟨-, -, rfl⟩ := scheduleIdleWork_ok hschedule
    exact of_setPhase rfl trivial rfl rfl rfl rfl
  | settle =>
    rename_i record
    obtain ⟨status, turn, -, heq⟩ | ⟨work, next, rest, -, -, heq⟩ | ⟨work, -, heq⟩ | heq :=
      interruptPending_case reg record
    all_goals rw [heq]
    · exact of_publish rfl (idle_update rfl rfl) rfl rfl rfl rfl
    · exact of_publish rfl (idle_update rfl trivial) rfl rfl rfl rfl
    · exact of_publish rfl (idle_update rfl rfl) rfl rfl rfl rfl
    · exact refl reg
  | rewrite => exact of_setPhase rfl (normalizedPhase_idleFinal _) rfl rfl rfl rfl
  | reopen => exact of_setPhase rfl (normalizedStatus_final _) rfl rfl rfl rfl
  | close => exact of_setPhase rfl trivial rfl rfl rfl rfl
  | insert hrestore =>
    obtain ⟨href, -, paths, rfl⟩ := restoreMissing_ok hrestore
    exact of_insert _ href (normalizedPhase_idleFinal _) rfl rfl rfl rfl rfl
  | _ => exact quiet (fun _ h => h) rfl rfl rfl rfl

end UpdateMove

end Registry

/-! ### Runs -/

namespace RegistryWorld

variable {w w' : RegistryWorld}

/-- A supervisor of the record has published a completion, and not settled it. -/
def settling (w : RegistryWorld) (record : SubagentRecord) : Bool :=
  w.supervisors.any fun thread => thread.owner = record ∧ thread.pc.isSettling

/-- The child whose completion a move leaves to a wait of its parent. -/
def left (w : RegistryWorld) : RegistryEvent → Option SubagentRecord
  | .supervisor sid .publish =>
      (w.supervisors[sid]?).bind fun thread =>
        if w.registry.leftToWait thread.owner then some thread.owner else none
  | _ => none

/-- The move takes the record out of the registry, or puts another in its place. -/
def unregisters (w : RegistryWorld) (event : RegistryEvent) (record : SubagentRecord) : Bool :=
  match event with
  | .spawn request => record.recordId = request.agentId
  | .advance _ =>
      match w.lifecycle with
      | some (.restoreInsert request) => record.recordId = request.agentId
      | _ => false
  | .conclude =>
      match w.lifecycle with
      | some (.shuttingDown true _ _) => true
      | _ => false
  | event => (w.deletes event).any fun deleted => record.recordId = deleted.recordId

/-- The record that a move makes active, or leaves active behind its publication: it is given work
again, goes on with new mail, or its supervisor is stopped. -/
def reactivates (w : RegistryWorld) : RegistryEvent → Option SubagentRecord
  | .supervisor sid .finish =>
      (w.supervisors[sid]?).bind fun thread =>
        match thread.pc with
        | .settling _ status =>
            if isSuspended status = false ∧ w.registry.status thread.owner = .running ∧
                (w.registry.recordMail thread.owner).recordMailbox ≠ [] then
              some thread.owner
            else none
        | _ => none
  | .supervisor sid .kill =>
      (w.supervisors[sid]?).bind fun thread =>
        if thread.pc.isSettling ∧ (w.registry.recordPhase thread.owner).isActive then
          some thread.owner
        else none
  | .advance _ =>
      match w.lifecycle with
      | some (.restartSchedule record _) | some (.resumeSchedule record _ _) => some record
      | _ => none
  | _ => none

/-- The move ends a wait that cannot pay: one with targets while a child it owes is not settled, one
without by its timeout or after another wait has taken its updates, any of them by an exception. -/
def defaults (w : RegistryWorld) : RegistryEvent → Bool
  | .waiting wid event =>
      (w.waits[wid]?).any fun wait =>
        match event, wait.targets with
        | .select _, some _ => wait.owed.any w.settling
        | .select _, none =>
            (w.waits.eraseIdx wid).any fun other =>
              other.pc.isWaiting && other.targets.isNone && other.caller == wait.caller &&
                !other.owed.isEmpty
        | .timeout, some _ => wait.owed.any w.settling
        | .timeout, none => !wait.owed.isEmpty
        | .kill, _ => !wait.owed.isEmpty
        | .unregister, _ => false
  | _ => false

/-- A completion is left to waits only where one is still waiting for the child; while it waits, the
child stays registered and, if it is a target, at rest; and the wait does not end before it can
pay. -/
def Attended (w : RegistryWorld) (event : RegistryEvent) : Prop :=
  (∀ child ∈ w.left event, child ∈ w.registry.registryAgents ∧
    ∃ wait ∈ w.waits, wait.attends child) ∧
  (∀ wait ∈ w.waits, wait.pc.isWaiting → ∀ child ∈ wait.owed,
    w.unregisters event child = false) ∧
  (∀ child ∈ w.reactivates event, ∀ wait ∈ w.waits, wait.pc.isWaiting → wait.targets.isSome →
    child ∉ wait.owed) ∧
  w.defaults event = false

instance (w : RegistryWorld) (event : RegistryEvent) : Decidable (w.Attended event) :=
  inferInstanceAs (Decidable (_ ∧ _ ∧ _ ∧ _))

variable {event : RegistryEvent}

/-- Every move but a reset or a wait moves the updates forward. -/
theorem updateMove_of_step (hfinal : ∀ thread ∈ w.supervisors, thread.pc.StatusFinal)
    (h : w.step event = some w') :
    UpdateMove w.registry w'.registry ∨
      (∃ records pc, event = .conclude ∧ w.lifecycle = some (.shuttingDown true records pc) ∧
        w'.registry = w.registry.clear) ∨
      ∃ wid move, event = .waiting wid move := by
  have hmove := registry_of_step h
  generalize w'.registry = reg' at hmove ⊢
  cases hmove with
  | supervised hget heffect =>
    exact .inl (.of_effect (hfinal _ (mem_of_getElem? hget)) heffect)
  | admitted hfree hadmission =>
    obtain ⟨-, -, href, -, work, -, rfl⟩ := admitSubagent_ok hadmission
    exact .inl (.of_insert (.pending work) href trivial rfl rfl rfl rfl rfl)
  | advanced hop hholder => exact .inl (.of_holder hholder)
  | closed => exact .inl (.of_setPhase rfl trivial rfl rfl rfl rfl)
  | rolledBack =>
    refine .inl ⟨fun h => h.delete _, ?_, fun r => .same rfl, ?_, le_rfl, rfl⟩
    · exact UpdateMove.idle_update rfl trivial
    · exact fun r hr => .inl (mem_delete.mp hr).1
  | marked => exact .inl (.of_mark w _ _)
  | cleared hop => exact .inr (.inl ⟨_, _, rfl, hop, rfl⟩)
  | waited => exact .inr (.inr ⟨_, _, rfl⟩)
  | _ => exact .inl (.quiet (fun _ h => h) rfl rfl rfl rfl)

variable {r : SubagentRecord}

/-- Only the holder of the lock makes a record active. -/
theorem active_of_step (h : w.step event = some w')
    (hr : (w'.registry.recordPhase r).isActive) :
    (w.registry.recordPhase r).isActive ∨ w.reactivates event = some r ∨
      r.recordRef = w.registry.nextRef := by
  have hmove := registry_of_step h
  generalize w'.registry = reg' at hmove hr
  cases hmove with
  | supervised hget heffect => exact .inl (heffect.rely.active r hr)
  | admitted hfree hadmission =>
    rename_i request record
    obtain ⟨-, -, href, -, work, -, rfl⟩ := admitSubagent_ok hadmission
    by_cases hrecord : r = record
    · exact .inr (.inr (hrecord ▸ href))
    · refine .inl ?_
      simpa [insertPath, insertAgent, countSpawn, takeSlot, allocate,
        update_of_ne hrecord] using hr
  | advanced hop hholder =>
    cases hholder with
    | restart hturn hschedule =>
      rename_i record work
      obtain ⟨-, -, rfl⟩ := scheduleIdleWork_ok hschedule
      by_cases hrecord : r = record
      · exact .inr (.inl (by simp only [reactivates, hop, hrecord]))
      · exact .inl (by simpa [takeSlot, setPhase, update_of_ne hrecord] using hr)
    | resume hschedule =>
      rename_i record work due
      obtain ⟨-, -, rfl⟩ := scheduleIdleWork_ok hschedule
      by_cases hrecord : r = record
      · exact .inr (.inl (by simp only [reactivates, hop, hrecord]))
      · exact .inl (by simpa [takeSlot, setPhase, update_of_ne hrecord] using hr)
    | settle => exact .inl ((interruptPending_rely _ _).active r hr)
    | rewrite =>
      rename_i record request wasClosed
      by_cases hrecord : r = record
      -- a restored record is idle or closed
      · subst hrecord
        have hphase : (request.normalizedPhase).isActive := by
          simpa [rewriteRecord, insertPath, setPhase] using hr
        unfold RestoreRequest.normalizedPhase at hphase
        split at hphase <;> cases hphase
      · refine .inl ?_
        simpa [rewriteRecord, insertPath, setPhase, releaseSlot,
          update_of_ne hrecord] using hr
    | reopen record request | close record =>
      by_cases hrecord : r = record
      · subst hrecord
        simp [setPhase, SubagentPhase.isActive] at hr
      · exact .inl (by simpa [setPhase, update_of_ne hrecord] using hr)
    | insert hrestore =>
      rename_i request record
      obtain ⟨href, -, paths, rfl⟩ := restoreMissing_ok hrestore
      by_cases hrecord : r = record
      · exact .inr (.inr (hrecord ▸ href))
      · refine .inl ?_
        simpa [insertAgent, allocate, update_of_ne hrecord] using hr
    | _ => exact .inl hr
  | closed record => exact .inl ((closeRecord_rely _ _).active r hr)
  | rolledBack => exact .inl ((rollbackAdmission_rely _ _).active r hr)
  | marked => exact .inl ((mark_rely w _ _).active r hr)
  | waited hget hreg =>
    obtain ⟨cursors, waits, rfl⟩ := hreg
    exact .inl hr
  | _ => exact .inl hr

/-- A registered record stays registered, unless the move takes it out. -/
theorem registered_of_step (h : w.step event = some w')
    (hr : r ∈ w.registry.registryAgents) (hkept : w.unregisters event r = false) :
    r ∈ w'.registry.registryAgents := by
  have hmove := registry_of_step h
  generalize w'.registry = reg' at hmove ⊢
  cases hmove with
  | supervised hget heffect => exact heffect.agents ▸ hr
  | admitted hfree hadmission =>
    obtain ⟨-, -, -, hid, work, -, rfl⟩ := admitSubagent_ok hadmission
    refine mem_insert.mpr (.inr ⟨hr, ?_⟩)
    rw [hid]
    simpa [unregisters] using hkept
  | advanced hop hholder =>
    cases hholder with
    | restart hturn hschedule | resume hschedule =>
      obtain ⟨-, -, rfl⟩ := scheduleIdleWork_ok hschedule
      exact hr
    | settle =>
      rename_i record
      obtain ⟨status, turn, -, heq⟩ | ⟨work, next, rest, -, -, heq⟩ | ⟨work, -, heq⟩ | heq :=
        interruptPending_case w.registry record
      all_goals
        rw [heq]
        exact hr
    | insert hrestore =>
      obtain ⟨-, hid, paths, rfl⟩ := restoreMissing_ok hrestore
      refine mem_insert.mpr (.inr ⟨hr, ?_⟩)
      rw [hid]
      simpa [unregisters, hop] using hkept
    | _ => exact hr
  | rolledBack hdeletes =>
    rename_i record
    refine mem_delete.mpr ⟨hr, ?_⟩
    cases event with
    | spawned tid move | start ok => simpa [unregisters, hdeletes] using hkept
    | _ => cases hdeletes
  | marked =>
    rename_i kind records pc record _ _
    rw [mark_agents]
    exact hr
  | cleared hop =>
    simp [unregisters, hop] at hkept
  | waited hget hreg =>
    obtain ⟨cursors, waits, rfl⟩ := hreg
    exact hr
  | _ => exact hr

variable {reg : Registry} {status : SubagentStatus}

/-- The last step of a supervisor leaves its record at rest, unless new mail keeps it running. -/
theorem finish_inactive {record : SubagentRecord} {next : SupervisorStep × Registry}
    (hmail : isSuspended status = false → reg.status record = .running →
      (reg.recordMail record).recordMailbox = [])
    (h : reg.finishSupervisorStep record status = some next) :
    (next.2.recordPhase record).isActive = false := by
  cases hcase : reg.recordPhase record with
  | running turn =>
    have hrunning : reg.status record = .running := by
      rw [Registry.status, hcase]
      rfl
    unfold finishSupervisorStep at h
    split at h
    · rw [hcase] at h
      cases h
      simp [transitionToIdle, deleteSuspension, setPhase, SubagentPhase.isActive]
    · rename_i hsuspended
      simp only [supervisorStep, hcase, hmail (Bool.eq_false_iff.mpr hsuspended) hrunning] at h
      cases h
      simp [transitionToIdle, deleteSuspension, setPhase, SubagentPhase.isActive]
  -- a pending record has no finished turn, and the step retries
  | pending work =>
    unfold finishSupervisorStep at h
    simp only [supervisorStep, hcase, ite_self] at h
    cases h
  | _ =>
    rw [Bool.eq_false_iff]
    intro hactive
    have hold := (finishSupervisorStep_case h).rely.active record hactive
    rw [hcase] at hold
    cases hold

/-- A published completion is settled, unless the move keeps its record active. -/
theorem settling_of_step (h : w.step event = some w') (hr : w.settling r) :
    w'.settling r ∨ (w'.registry.recordPhase r).isActive = false ∨
      w.reactivates event = some r := by
  simp only [settling, List.any_eq_true, decide_eq_true_eq] at hr ⊢
  obtain ⟨old, hold, rfl, hsettling⟩ := hr
  rcases thread_after_step h hold with ⟨thread, hthread, howner, hpc⟩ |
    ⟨sid, move, next, rfl, hget, hnext, hmove⟩
  -- the supervisor of the record has not moved
  · exact .inl ⟨thread, hthread, howner, hpc ▸ hsettling⟩
  · rcases hmove.settling hsettling with hkept | rfl | rfl
    · exact .inl ⟨next, hnext, hmove.owner, hkept⟩
    · -- the record is settled
      simp only [step, hget, Option.bind_some, supervise] at h
      split at h
      · rename_i work status hpc
        obtain ⟨finished, hfinish, rfl⟩ := map_eq_some_iff.mp h
        by_cases hmail : isSuspended status = false ∧ w.registry.status old.owner = .running ∧
            (w.registry.recordMail old.owner).recordMailbox ≠ []
        · refine .inr (.inr ?_)
          simp only [reactivates, hget, Option.bind_some, hpc]
          rw [if_pos hmail]
        · refine .inr (.inl (finish_inactive (fun hstatus hrunning => ?_) hfinish))
          by_contra hne
          exact hmail ⟨hstatus, hrunning, hne⟩
      · cases h
    · -- its supervisor is stopped
      by_cases hactive : (w.registry.recordPhase old.owner).isActive
      · refine .inr (.inr ?_)
        simp only [reactivates, hget, Option.bind_some]
        rw [if_pos ⟨hsettling, hactive⟩]
      · simp only [step, hget, Option.bind_some, supervise] at h
        split at h
        · cases h
          exact .inr (.inl (Bool.eq_false_iff.mpr hactive))
        · cases h

/-- The waits after a move: the same, one more, one of them moved, or some of them left with a
completion. -/
inductive WaitsMove (w : RegistryWorld) (event : RegistryEvent) (w' : RegistryWorld) : Prop
  | same (h : w'.waits = w.waits)
  | left {child : SubagentRecord} (hleft : w.left event = some child)
      (h : w'.waits = w.waits.map (·.owe child))
  | begun (caller : Option SubagentId) (targets : Option (List SubagentId))
      (h : w'.waits = w.waits ++
        [{ caller := caller, targets := targets, pc := .waiting, owed := [] }])
  | moved {wid : ℕ} {move : WaitEvent} {wait : WaitThread} (hevent : event = .waiting wid move)
      (hget : w.waits[wid]? = some wait) (hstep : w.waitStep wid wait move = some w')

theorem waits_of_step (h : w.step event = some w') : WaitsMove w event w' := by
  cases event with
  | supervisor sid event =>
    obtain ⟨thread, hget, h⟩ := bind_eq_some_iff.mp h
    -- of all moves of a supervisor, only a publication looks at waits
    by_cases hpublish : event = .publish
    · subst hpublish
      simp only [supervise] at h
      split at h
      · cases h
        by_cases hleft : w.registry.leftToWait thread.owner
        · refine .left (?_ : _ = some thread.owner) (if_pos hleft)
          simp only [left, hget, Option.bind_some]
          rw [if_pos hleft]
        · exact .same (if_neg hleft)
      · cases h
    · exact .same ((supervise_case hget h).2.2.waits hpublish)
  | spawn request =>
    simp only [step] at h
    repeat' split at h
    all_goals first
      | cases h; exact .same rfl
      | cases h
  | spawned tid event =>
    obtain ⟨thread, -, h⟩ := bind_eq_some_iff.mp h
    exact .same (spawnStep_frame h).1.2.1
  | request call =>
    simp only [step] at h
    split at h
    · cases h
    · cases h
      exact .same rfl
  | advance ok =>
    obtain ⟨op, -, h⟩ := bind_eq_some_iff.mp h
    obtain ⟨next, -, rfl⟩ := map_eq_some_iff.mp h
    exact .same rfl
  | start ok =>
    obtain ⟨op, -, h⟩ := bind_eq_some_iff.mp h
    exact .same (startStep_frame h).1
  | worker record =>
    obtain ⟨op, -, h⟩ := bind_eq_some_iff.mp h
    exact .same (workerStep_frame h).2.1
  | conclude =>
    obtain ⟨op, -, h⟩ := bind_eq_some_iff.mp h
    exact .same (concludeStep_frame h).2.2.2
  | abandon =>
    obtain ⟨op, -, h⟩ := bind_eq_some_iff.mp h
    exact .same (abandonStep_frame h).2.1
  | wait caller targets =>
    cases h
    exact .begun caller targets rfl
  | waiting wid event =>
    obtain ⟨wait, hget, h⟩ := bind_eq_some_iff.mp h
    exact .moved rfl hget h
  | setMaxConcurrent limit | beginRootTurn =>
    cases h
    exact .same rfl

/-! ### What waits report -/

/-- The map has a final status of the child. -/
def Reports (statuses : SubagentId → Option SubagentStatus) (child : SubagentRecord) : Prop :=
  ∃ status, statuses child.recordId = some status ∧ isFinalStatus status

theorem statusMap_of_mem {pairs : List (SubagentId × SubagentStatus)} {agentId : SubagentId}
    (h : (agentId, status) ∈ pairs) :
    ∃ status, statusMap pairs agentId = some status ∧ (agentId, status) ∈ pairs := by
  unfold statusMap
  cases hlookup : pairs.reverse.lookup agentId with
  | none =>
    have hne := List.lookup_eq_none_iff.mp hlookup _ (mem_reverse.mpr h)
    simp at hne
  | some found =>
    obtain ⟨before, after, heq, -⟩ := List.lookup_eq_some_iff.mp hlookup
    refine ⟨found, rfl, mem_reverse.mp ?_⟩
    rw [heq]
    simp

variable {child : SubagentRecord}

/-- A registered record at rest has a final status. -/
theorem readStatus_final (hok : reg.UpdatesOk) (hchild : child ∈ reg.registryAgents)
    (hrest : (reg.recordPhase child).isActive = false) :
    isFinalStatus (reg.readStatus child.recordId) := by
  have hlookup : reg.lookup child.recordId = some child :=
    (lookup_eq_some_iff hok.ids).mpr ⟨hchild, rfl⟩
  have hidle := hok.idle child
  rw [readStatus, hlookup]
  simp only [Registry.status]
  cases hphase : reg.recordPhase child with
  | idle status turn =>
    rw [hphase] at hidle
    exact hidle
  | pending work | running turn =>
    rw [hphase] at hrest
    cases hrest
  | interrupting turn | closed => rfl

/-- A wait with targets reports a target that is at rest. -/
theorem reports_targets {targets : List SubagentId} (hok : reg.UpdatesOk)
    (hchild : child ∈ reg.registryAgents) (htarget : child.recordId ∈ targets)
    (hrest : (reg.recordPhase child).isActive = false) :
    Reports (statusMap (reg.targetStatuses targets)) child := by
  obtain ⟨status, hstatus, hmem⟩ := statusMap_of_mem (List.mem_map.mpr ⟨_, htarget, rfl⟩ :
    (child.recordId, reg.readStatus child.recordId) ∈ reg.targetStatuses targets)
  refine ⟨status, hstatus, ?_⟩
  obtain ⟨agentId, -, heq⟩ := List.mem_map.mp hmem
  cases heq
  exact readStatus_final hok hchild hrest

variable {caller : Option SubagentId}

/-- A registered child with an update the caller has not seen is among the unseen ones. -/
theorem mem_unseenUpdates {seqNo : ℕ} (hchild : child ∈ reg.registryAgents)
    (hcaller : caller ≠ some child.recordId)
    (hupdate : reg.recordLastUpdate child = some (seqNo, status))
    (hunseen : reg.registryWaitCursors caller < seqNo) :
    (child.recordId, seqNo, status) ∈ reg.unseenUpdates caller := by
  refine mem_filterMap.mpr ⟨child, hchild, ?_⟩
  simp only [recordUpdateAfter, if_neg hcaller, hupdate]
  exact if_pos hunseen

theorem unseenUpdates_mem {agentId : SubagentId} {seqNo : ℕ}
    (h : (agentId, seqNo, status) ∈ reg.unseenUpdates caller) :
    ∃ child ∈ reg.registryAgents, reg.recordLastUpdate child = some (seqNo, status) := by
  obtain ⟨child, hchild, hupdate⟩ := mem_filterMap.mp h
  refine ⟨child, hchild, ?_⟩
  unfold recordUpdateAfter at hupdate
  split at hupdate
  · cases hupdate
  · split at hupdate
    · rename_i found hfound
      split at hupdate
      · cases hupdate
        exact hfound
      · cases hupdate
    · cases hupdate

/-- A wait without targets reports every unseen update. -/
theorem takeAgentUpdates_some {statuses : SubagentId → Option SubagentStatus} {taken : Registry}
    (hok : reg.UpdatesOk) (h : reg.takeAgentUpdates caller = some (statuses, taken)) :
    (∀ child seqNo status, (child.recordId, seqNo, status) ∈ reg.unseenUpdates caller →
      Reports statuses child) ∧
    ∃ latest ≤ reg.registryNextUpdateSeq, taken = { reg with
      registryWaitCursors := Function.update reg.registryWaitCursors caller latest } := by
  unfold takeAgentUpdates at h
  split at h
  · cases h
  · cases h
    refine ⟨fun child seqNo status hmem => ?_, _, ?_, rfl⟩
    · obtain ⟨found, hfound, hpair⟩ := statusMap_of_mem (List.mem_map.mpr ⟨_, hmem, rfl⟩ :
        (child.recordId, status) ∈ (reg.unseenUpdates caller).map fun update =>
          (update.1, update.2.2))
      refine ⟨found, hfound, ?_⟩
      obtain ⟨⟨agentId, number, updated⟩, hupdate, heq⟩ := List.mem_map.mp hpair
      cases heq
      obtain ⟨source, -, hsource⟩ := unseenUpdates_mem hupdate
      exact hok.updates source number updated hsource
    · -- the cursor moves to the number of some update, none of which is in the future
      have hbound : ∀ numbers : List ℕ, (∀ n ∈ numbers, n ≤ reg.registryNextUpdateSeq) →
          numbers.foldr max 0 ≤ reg.registryNextUpdateSeq := by
        intro numbers hnumbers
        induction numbers with
        | nil => exact Nat.zero_le _
        | cons n rest ih =>
          exact max_le (hnumbers n mem_cons_self)
            (ih fun m hm => hnumbers m (mem_cons_of_mem _ hm))
      refine hbound _ fun n hn => ?_
      obtain ⟨⟨agentId, number, updated⟩, hupdate, rfl⟩ := List.mem_map.mp hn
      obtain ⟨source, hmem, hsource⟩ := unseenUpdates_mem hupdate
      exact hok.numbers source hmem number updated hsource

theorem takeAgentUpdates_none (h : reg.takeAgentUpdates caller = none) :
    reg.unseenUpdates caller = [] := by
  unfold takeAgentUpdates at h
  split at h
  · assumption
  · cases h

/-- A wait that is waiting will report the child. -/
structure Payable (w : RegistryWorld) (wait : WaitThread) (child : SubagentRecord) : Prop where
  registered : child ∈ w.registry.registryAgents
  targeted : ∀ targets ∈ wait.targets, child.recordId ∈ targets ∧
    ((w.registry.recordPhase child).isActive → w.settling child)
  unseen : wait.targets = none → wait.caller ≠ some child.recordId ∧
    ∃ seqNo status, w.registry.recordLastUpdate child = some (seqNo, status) ∧
      w.registry.registryWaitCursors wait.caller < seqNo

/-- What a wait owes it will report, or has reported. -/
def Accountable (w : RegistryWorld) (wait : WaitThread) : Prop :=
  ∀ child ∈ wait.owed, child.recordRef < w.registry.nextRef ∧
    match wait.pc with
    | .waiting => w.Payable wait child
    | .selected statuses _ => Reports statuses child
    | .returned statuses _ => Reports statuses child
    | .killed => False
    | .gone => False

structure WaitInv (w : RegistryWorld) : Prop where
  allocated : w.Allocated
  finals : ∀ thread ∈ w.supervisors, thread.pc.StatusFinal
  updates : w.registry.UpdatesOk
  waits : ∀ wait ∈ w.waits, w.Accountable wait

theorem init_waitInv (config : SubagentConfig) : (init config).WaitInv where
  allocated := init_allocated config
  finals := fun _ h => nomatch h
  updates :=
    { ids := .nil
      idle := fun _ => trivial
      updates := fun _ _ _ h => nomatch h
      numbers := fun _ h => nomatch h
      cursors := fun _ => le_rfl }
  waits := fun _ h => nomatch h

theorem finals_step (hinv : w.WaitInv) (h : w.step event = some w') :
    ∀ thread ∈ w'.supervisors, thread.pc.StatusFinal := by
  intro thread hthread
  cases thread_of_step h hthread with
  | same hmem => exact hinv.finals thread hmem
  | moved hevent hget hstep hmove =>
    exact hmove.status (hinv.finals _ (mem_of_getElem? hget))
  | started hpc =>
    rw [hpc]
    trivial
  | requested hlock hmem hpc hreg holdMem howner hrun =>
    rename_i old
    exact hinv.finals old holdMem

variable {wait : WaitThread}

/-- A debt stays payable under the moves of other threads. -/
theorem Payable.step (hpayable : w.Payable wait child)
    (hcreated : child.recordRef < w.registry.nextRef) (hok : w.Attended event)
    (hmem : wait ∈ w.waits) (hwaiting : wait.pc.isWaiting) (howed : child ∈ wait.owed)
    (hcursors : ∀ caller, w.registry.registryWaitCursors caller ≤ w.registry.registryNextUpdateSeq)
    (hupdate : UpdateMove w.registry w'.registry) (h : w.step event = some w') :
    w'.Payable wait child where
  registered := registered_of_step h hpayable.registered (hok.2.1 wait hmem hwaiting child howed)
  targeted := by
    intro targets htargets
    obtain ⟨htarget, hsettling⟩ := hpayable.targeted targets htargets
    have hrest : w.reactivates event ≠ some child := fun hrestart =>
      hok.2.2.1 child hrestart wait hmem hwaiting (by rw [show wait.targets = _ from htargets]; rfl)
        howed
    refine ⟨htarget, fun hactive => ?_⟩
    rcases active_of_step h hactive with hbefore | hrestart | href
    · rcases settling_of_step h (hsettling hbefore) with hafter | hidle | hrestart
      · exact hafter
      · rw [hidle] at hactive
        cases hactive
      -- a child that is a target is not made active again while it is owed
      · exact absurd hrestart hrest
    · exact absurd hrestart hrest
    · exact absurd href hcreated.ne
  unseen := by
    intro hnone
    obtain ⟨hcaller, seqNo, status, hlast, hunseen⟩ := hpayable.unseen hnone
    refine ⟨hcaller, ?_⟩
    rw [hupdate.cursors]
    cases hupdate.updates child with
    | same hsame => exact ⟨seqNo, status, hsame.trans hlast, hunseen⟩
    | published hnew hfinal hseq =>
      exact ⟨_, _, hnew, Nat.lt_succ_of_le (hcursors wait.caller)⟩
    | created hnew href => exact absurd href hcreated.ne

/-- Only the debts of a wait that is waiting depend on the registry. -/
theorem Accountable.of_payable (hwait : w.Accountable wait)
    (hnext : w.registry.nextRef ≤ w'.registry.nextRef)
    (hpayable : wait.pc = .waiting → ∀ child ∈ wait.owed,
      child.recordRef < w.registry.nextRef → w.Payable wait child → w'.Payable wait child) :
    w'.Accountable wait := by
  intro child howed
  obtain ⟨hcreated, hdebt⟩ := hwait child howed
  refine ⟨lt_of_lt_of_le hcreated hnext, ?_⟩
  cases hpc : wait.pc with
  | waiting =>
    rw [hpc] at hdebt
    exact hpayable hpc child howed hcreated hdebt
  | selected statuses timedOut | returned statuses timedOut | killed | gone =>
    rw [hpc] at hdebt
    exact hdebt

/-- The debts of a wait that the move leaves alone. -/
theorem Accountable.step (hwait : w.Accountable wait) (hinv : w.WaitInv) (hok : w.Attended event)
    (hmem : wait ∈ w.waits) (hnext : w.registry.nextRef ≤ w'.registry.nextRef)
    (hupdate : UpdateMove w.registry w'.registry) (h : w.step event = some w') :
    w'.Accountable wait := by
  refine hwait.of_payable hnext fun hpc child howed hcreated hdebt => ?_
  have hwaiting : wait.pc.isWaiting := by
    rw [hpc]
    rfl
  exact hdebt.step hcreated hok hmem hwaiting howed hinv.updates.cursors hupdate h

theorem nextRef_of_step (h : w.step event = some w') :
    w.registry.nextRef ≤ w'.registry.nextRef := by
  have hmove := registry_of_step h
  generalize w'.registry = reg' at hmove ⊢
  cases hmove with
  | supervised hget heffect => exact heffect.rely.nextRef.ge
  | admitted hfree hadmission =>
    obtain ⟨-, -, -, -, work, -, rfl⟩ := admitSubagent_ok hadmission
    exact Nat.le_succ _
  | advanced hop hholder => exact hholder.nextRef
  | marked => exact (mark_rely w _ _).nextRef.ge
  | waited hget hreg =>
    obtain ⟨cursors, waits, rfl⟩ := hreg
    exact le_rfl
  | _ => exact le_rfl

/-- The publication of a completion that is left to waits. -/
theorem publish_left (hleft : w.left event = some child) (h : w.step event = some w') :
    w'.settling child ∧ (∃ thread ∈ w.supervisors, thread.owner = child) ∧
      w'.registry.registryAgents = w.registry.registryAgents ∧
      (∃ status, w'.registry.recordLastUpdate child
        = some (w.registry.registryNextUpdateSeq + 1, status)) ∧
      w'.registry.registryWaitCursors = w.registry.registryWaitCursors := by
  unfold left at hleft
  split at hleft
  · rename_i sid
    obtain ⟨thread, hget, hleft⟩ := bind_eq_some_iff.mp hleft
    split at hleft
    · cases hleft
      simp only [step, hget, Option.bind_some, supervise] at h
      split at h
      · rename_i work status hpc
        cases h
        obtain ⟨mail, hmail⟩ :=
          publishCompletion_mail w.registry thread.owner status (completionMetadata work)
        have hlt := (List.getElem?_eq_some_iff.mp hget).1
        refine ⟨?_, ⟨thread, mem_of_getElem? hget, rfl⟩, ?_, ⟨status, ?_⟩, ?_⟩
        · simp only [settling, List.any_eq_true, decide_eq_true_eq]
          exact ⟨_, List.mem_set hlt _, rfl, rfl⟩
        · simp [setSupervisor, hmail, publishDirectUpdate]
        · simp [setSupervisor, hmail, publishDirectUpdate]
        · simp [setSupervisor, hmail, publishDirectUpdate]
      · cases h
    · cases hleft
  · cases hleft

/-- A wait takes on the debt of a completion. -/
theorem Accountable.owe (hwait : w'.Accountable wait) (hinv : w.WaitInv) (hok : w.Attended event)
    (hleft : w.left event = some child) (h : w.step event = some w') :
    w'.Accountable (wait.owe child) := by
  unfold WaitThread.owe
  split
  · rename_i hattends
    obtain ⟨hsettling, ⟨thread, hthread, howner⟩, hagents, ⟨status, hupdate⟩, hcursors⟩ :=
      publish_left hleft h
    simp only [WaitThread.attends, Bool.and_eq_true, WaitPc.isWaiting] at hattends
    obtain ⟨⟨⟨hwaiting, -⟩, -⟩, hcovers⟩ := hattends
    intro other hother
    rcases mem_cons.mp hother with rfl | hother
    · refine ⟨lt_of_lt_of_le (howner ▸ hinv.allocated.supervisors thread hthread)
        (nextRef_of_step h), ?_⟩
      have hpc : wait.pc = .waiting := by
        revert hwaiting
        cases wait.pc <;> simp
      simp only [hpc]
      refine ⟨hagents ▸ (hok.1 other hleft).1, fun targets htargets => ⟨?_, fun _ => hsettling⟩,
        fun hnone => ⟨?_, _, status, hupdate, ?_⟩⟩
      · rw [WaitThread.covers, show wait.targets = some targets from htargets] at hcovers
        simpa using hcovers
      · have hnone' : wait.targets = none := hnone
        rw [WaitThread.covers, hnone'] at hcovers
        simpa using hcovers
      · rw [hcursors]
        exact Nat.lt_succ_of_le (hinv.updates.cursors _)
    · obtain ⟨hcreated, hdebt⟩ := hwait other hother
      refine ⟨hcreated, ?_⟩
      cases hpc : wait.pc with
      | waiting =>
        simp only [hpc] at hdebt ⊢
        exact ⟨hdebt.registered, hdebt.targeted, hdebt.unseen⟩
      | selected statuses timedOut | returned statuses timedOut =>
        simp only [hpc] at hdebt ⊢
        exact hdebt
      | killed | gone =>
        simp only [hpc] at hdebt
  · exact hwait

/-- A wait moves its cursor forward, if it has no targets, and leaves everything else alone. -/
theorem waitStep_cursors {wid : ℕ} {move : WaitEvent} (hok : w.registry.UpdatesOk)
    (h : w.waitStep wid wait move = some w') :
    ∃ cursors waits, w'.registry = { w.registry with
        registryWaitCursors := cursors, registryActiveWaits := waits } ∧
      (∀ caller, cursors caller ≤ w.registry.registryNextUpdateSeq) ∧
      (cursors = w.registry.registryWaitCursors ∨
        wait.targets = none ∧ (∃ rootReady, move = .select rootReady) ∧
          ∀ caller ≠ wait.caller, cursors caller = w.registry.registryWaitCursors caller) := by
  cases move with
  | select rootReady =>
    simp only [waitStep] at h
    split at h
    · split at h
      · cases h
        exact ⟨_, _, rfl, hok.cursors, .inl rfl⟩
      · cases h
    · rename_i htargets
      split at h
      · rename_i statuses taken htaken
        cases h
        obtain ⟨-, latest, hlatest, rfl⟩ := takeAgentUpdates_some hok htaken
        refine ⟨Function.update w.registry.registryWaitCursors wait.caller latest, _, rfl,
          fun caller => ?_, .inr ⟨htargets, ⟨rootReady, rfl⟩, ?_⟩⟩
        · by_cases hcaller : caller = wait.caller
          · subst hcaller
            rw [update_self]
            exact hlatest
          · rw [update_of_ne hcaller]
            exact hok.cursors caller
        · exact fun caller hcaller => update_of_ne hcaller _ _
      · split at h
        · cases h
          exact ⟨_, _, rfl, hok.cursors, .inl rfl⟩
        · cases h
    · cases h
  | _ =>
    simp only [waitStep] at h
    split at h
    all_goals first
      | cases h; exact ⟨_, _, rfl, hok.cursors, .inl rfl⟩
      | cases h

/-- The debts of the other waits. -/
theorem waitStep_others {wid i : ℕ} {other : WaitThread} {move : WaitEvent} (hinv : w.WaitInv)
    (hok : w.Attended (.waiting wid move)) (hget : w.waits[wid]? = some wait)
    (hother : w.waits[i]? = some other) (hne : i ≠ wid) (h : w.waitStep wid wait move = some w') :
    w'.Accountable other := by
  obtain ⟨cursors, waits, hreg, -, hcursors⟩ := waitStep_cursors hinv.updates h
  have hthreads := (waitStep_frame h).2.1
  have hnext : w.registry.nextRef ≤ w'.registry.nextRef := by
    rw [hreg]
  refine (hinv.waits other (mem_of_getElem? hother)).of_payable hnext
    fun hpc child howed _ hdebt => ⟨?_, fun targets htargets => ?_, fun hnone => ?_⟩
  · rw [hreg]
    exact hdebt.registered
  · rw [settling, hthreads, hreg]
    exact hdebt.targeted targets htargets
  · obtain ⟨hcaller, seqNo, status, hlast, hunseen⟩ := hdebt.unseen hnone
    rw [hreg]
    refine ⟨hcaller, seqNo, status, hlast, ?_⟩
    rcases hcursors with rfl | ⟨htargets, ⟨rootReady, rfl⟩, hsame⟩
    · exact hunseen
    · -- another wait of the same caller would have taken the update
      by_cases hcallers : other.caller = wait.caller
      · have hdefault := hok.2.2.2
        simp only [defaults, hget, any_some, htargets, List.any_eq_false] at hdefault
        have hfree := hdefault other (mem_eraseIdx_iff_getElem?.mpr ⟨i, hne, hother⟩)
        have hempty : other.owed.isEmpty = false := by
          cases hlist : other.owed with
          | nil =>
            rw [hlist] at howed
            cases howed
          | cons head rest => rfl
        simp [hpc, WaitPc.isWaiting, hnone, hcallers, hempty] at hfree
      · dsimp only
        rw [hsame other.caller hcallers]
        exact hunseen

/-- Targets that are settled are at rest, and reported. -/
theorem targets_reported {targets : List SubagentId} (hinv : w.WaitInv) (hwait : w.Accountable wait)
    (hpc : wait.pc = .waiting) (htargets : wait.targets = some targets)
    (hsettled : wait.owed.any w.settling = false) :
    ∀ child ∈ wait.owed, Reports (statusMap (w.registry.targetStatuses targets)) child := by
  intro child howed
  obtain ⟨-, hdebt⟩ := hwait child howed
  simp only [hpc] at hdebt
  obtain ⟨htarget, hsettling⟩ := hdebt.targeted targets htargets
  refine reports_targets hinv.updates hdebt.registered htarget
    (Bool.eq_false_iff.mpr fun hactive => ?_)
  exact List.any_eq_false.mp hsettled child howed (hsettling hactive)

/-- The debts of the wait that moves. -/
theorem waitStep_self {wid : ℕ} {move : WaitEvent} (hinv : w.WaitInv)
    (hok : w.Attended (.waiting wid move)) (hget : w.waits[wid]? = some wait)
    (h : w.waitStep wid wait move = some w') :
    ∃ next, w'.waits = w.waits.set wid next ∧ w'.Accountable next := by
  have hwait := hinv.waits wait (mem_of_getElem? hget)
  have hdefault := hok.2.2.2
  simp only [defaults, hget, any_some] at hdefault
  obtain ⟨cursors, waits, hreg, -, -⟩ := waitStep_cursors hinv.updates h
  have hcreated : ∀ child ∈ wait.owed, child.recordRef < w'.registry.nextRef := by
    intro child howed
    rw [hreg]
    exact (hwait child howed).1
  cases move with
  | select rootReady =>
    simp only [waitStep] at h
    split at h
    · rename_i targets hpc htargets
      split at h
      · cases h
        simp only [htargets] at hdefault
        exact ⟨_, rfl, fun child howed => ⟨hcreated child howed,
          targets_reported hinv hwait hpc htargets hdefault child howed⟩⟩
      · cases h
    -- without targets, every child it owes has an update it has not seen
    · rename_i hpc htargets
      have hunseen : ∀ child ∈ wait.owed, ∃ seqNo status,
          (child.recordId, seqNo, status) ∈ w.registry.unseenUpdates wait.caller := by
        intro child howed
        obtain ⟨-, hdebt⟩ := hwait child howed
        simp only [hpc] at hdebt
        obtain ⟨hcaller, seqNo, status, hlast, hseq⟩ := hdebt.unseen htargets
        exact ⟨seqNo, status, mem_unseenUpdates hdebt.registered hcaller hlast hseq⟩
      split at h
      · rename_i statuses taken htaken
        cases h
        refine ⟨_, rfl, fun child howed => ⟨hcreated child howed, ?_⟩⟩
        obtain ⟨seqNo, status, hmem⟩ := hunseen child howed
        exact (takeAgentUpdates_some hinv.updates htaken).1 child seqNo status hmem
      · rename_i hnone
        split at h
        · cases h
          refine ⟨_, rfl, fun child howed => ?_⟩
          obtain ⟨seqNo, status, hmem⟩ := hunseen child howed
          rw [takeAgentUpdates_none hnone] at hmem
          cases hmem
        · cases h
    · cases h
  | timeout =>
    simp only [waitStep] at h
    split at h
    · rename_i hpc
      cases h
      refine ⟨_, rfl, fun child howed => ⟨hcreated child howed, ?_⟩⟩
      cases htargets : wait.targets with
      | some targets =>
        simp only [htargets] at hdefault
        exact targets_reported hinv hwait hpc htargets hdefault child howed
      | none =>
        simp only [htargets, Bool.not_eq_false', List.isEmpty_iff] at hdefault
        have howed' : child ∈ wait.owed := howed
        rw [hdefault] at howed'
        cases howed'
    · cases h
  -- what was chosen is returned as it is
  | unregister =>
    simp only [waitStep] at h
    split at h
    · rename_i statuses timedOut hpc
      cases h
      refine ⟨_, rfl, fun child howed => ⟨hcreated child howed, ?_⟩⟩
      obtain ⟨-, hdebt⟩ := hwait child howed
      simp only [hpc] at hdebt
      exact hdebt
    · rename_i hpc
      cases h
      refine ⟨_, rfl, fun child howed => ?_⟩
      obtain ⟨-, hdebt⟩ := hwait child howed
      simp only [hpc] at hdebt
    · cases h
  | kill =>
    have hempty : wait.owed = [] := by
      simpa only [Bool.not_eq_false', List.isEmpty_iff] using hdefault
    simp only [waitStep] at h
    split at h
    · cases h
      exact ⟨_, rfl, fun child howed => by rw [hempty] at howed; cases howed⟩
    · cases h
      exact ⟨_, rfl, fun child howed => by rw [hempty] at howed; cases howed⟩
    · cases h

theorem updatesOk_step (hinv : w.WaitInv) (h : w.step event = some w') : w'.registry.UpdatesOk := by
  rcases updateMove_of_step hinv.finals h with
    hmove | ⟨records, pc, -, -, hclear⟩ | ⟨wid, move, rfl⟩
  · exact hmove.ok hinv.updates
  · rw [hclear]
    exact ⟨.nil, hinv.updates.idle, hinv.updates.updates, fun _ hr => (nomatch hr), fun _ => le_rfl⟩
  · obtain ⟨wait, hget, h⟩ := bind_eq_some_iff.mp h
    obtain ⟨cursors, waits, hreg, hle, -⟩ := waitStep_cursors hinv.updates h
    rw [hreg]
    exact ⟨hinv.updates.ids, hinv.updates.idle, hinv.updates.updates, hinv.updates.numbers, hle⟩

/-- A reset finds no wait that is owed anything. -/
theorem Accountable.clear {records : List SubagentRecord} {pc : SubagentRecord → ShutdownPc}
    (hwait : w.Accountable wait) (hop : w.lifecycle = some (.shuttingDown true records pc))
    (hok : w.Attended .conclude) (hmem : wait ∈ w.waits)
    (hnext : w.registry.nextRef ≤ w'.registry.nextRef) : w'.Accountable wait := by
  refine hwait.of_payable hnext fun hpc child howed _ _ => ?_
  have hwaiting : wait.pc.isWaiting := by
    rw [hpc]
    rfl
  have hkept := hok.2.1 wait hmem hwaiting child howed
  simp [unregisters, hop] at hkept

/-- **Every move keeps the debts of waits payable.** -/
theorem accountable_step (hinv : w.WaitInv) (hok : w.Attended event) (h : w.step event = some w') :
    ∀ wait ∈ w'.waits, w'.Accountable wait := by
  have hnext := nextRef_of_step h
  by_cases hwaiting : ∃ wid move, event = .waiting wid move
  · obtain ⟨wid, move, rfl⟩ := hwaiting
    obtain ⟨wait, hget, h⟩ := bind_eq_some_iff.mp h
    obtain ⟨next, hset, hnextWait⟩ := waitStep_self hinv hok hget h
    rw [hset]
    intro other hmem
    obtain ⟨i, hi⟩ := mem_iff_getElem?.mp hmem
    by_cases hwid : i = wid
    · subst hwid
      rw [List.getElem?_set_self (List.getElem?_eq_some_iff.mp hget).1, some.injEq] at hi
      exact hi ▸ hnextWait
    · rw [List.getElem?_set_ne (Ne.symm hwid)] at hi
      exact waitStep_others hinv hok hget hi hwid h
  · have hkeep : ∀ wait ∈ w.waits, w'.Accountable wait := by
      intro wait hmem
      rcases updateMove_of_step hinv.finals h with hmove | ⟨records, pc, rfl, hop, -⟩ | hevent
      · exact (hinv.waits wait hmem).step hinv hok hmem hnext hmove h
      · exact (hinv.waits wait hmem).clear hop hok hmem hnext
      · exact absurd hevent hwaiting
    cases waits_of_step h with
    | same hwaits =>
      rw [hwaits]
      exact hkeep
    | left hleft hwaits =>
      rw [hwaits]
      intro wait hmem
      obtain ⟨old, hold, rfl⟩ := List.mem_map.mp hmem
      exact (hkeep old hold).owe hinv hok hleft h
    | begun caller targets hwaits =>
      rw [hwaits]
      intro wait hmem
      rcases mem_append.mp hmem with hmem | hmem
      · exact hkeep wait hmem
      · rw [mem_singleton.mp hmem]
        exact fun _ howed => nomatch howed
    | moved hevent => exact absurd ⟨_, _, hevent⟩ hwaiting

theorem waitInv_step (hinv : w.WaitInv) (hok : w.Attended event) (h : w.step event = some w') :
    w'.WaitInv where
  allocated := allocated_step hinv.allocated h
  finals := finals_step hinv h
  updates := updatesOk_step hinv h
  waits := accountable_step hinv hok h

/-- A wait that is waiting can choose its result once a child it owes is settled. -/
theorem select_enabled {wid : ℕ} (hinv : w.WaitInv) (hget : w.waits[wid]? = some wait)
    (hpc : wait.pc = .waiting) (howed : child ∈ wait.owed) (hsettled : w.settling child = false) :
    (w.step (.waiting wid (.select false))).isSome := by
  obtain ⟨-, hdebt⟩ := hinv.waits wait (mem_of_getElem? hget) child howed
  simp only [hpc] at hdebt
  simp only [step, hget, Option.bind_some, waitStep, hpc]
  cases htargets : wait.targets with
  | some targets =>
    obtain ⟨htarget, hsettling⟩ := hdebt.targeted targets htargets
    have hrest : (w.registry.recordPhase child).isActive = false := by
      rw [Bool.eq_false_iff]
      intro hactive
      rw [hsettling hactive] at hsettled
      cases hsettled
    have hfinal : isFinalStatus (w.registry.readStatus child.recordId) :=
      readStatus_final hinv.updates hdebt.registered hrest
    -- a target at rest has a final status, which is what the wait looks for
    dsimp only
    rw [if_pos (List.any_eq_true.mpr ⟨child.recordId, htarget, hfinal⟩)]
    rfl
  | none =>
    obtain ⟨hcaller, seqNo, status, hlast, hunseen⟩ := hdebt.unseen htargets
    have hmem := mem_unseenUpdates hdebt.registered hcaller hlast hunseen
    dsimp only
    split
    · rfl
    · rename_i hnone
      rw [takeAgentUpdates_none hnone] at hmem
      cases hmem

/-- Where an active parent has no wait registered for the record, the completion is its mail. -/
theorem completionParent_of_active {record : SubagentRecord} (hactive : reg.parentActive record)
    (hleft : reg.leftToWait record = false) :
    ∃ parent, record.recordParent.bind reg.lookup = some parent ∧
      reg.completionParent record = some parent := by
  obtain ⟨parent, hparent, hstatus⟩ := (Option.any_eq_true _ _).mp hactive
  obtain ⟨parentId, hid, hlookup⟩ := bind_eq_some_iff.mp hparent
  refine ⟨parent, hparent, ?_⟩
  have hawaited : ¬ reg.completionIsAwaited (some parentId) record.recordId := by
    intro hawaited
    rw [leftToWait, hid, hactive, hawaited] at hleft
    cases hleft
  simp only [completionParent, hid, Option.bind_some, if_neg hawaited, hlookup]
  exact filter_eq_some_iff.mpr ⟨rfl, hstatus⟩

/-- A completion goes to the mail of an active parent, or is left to a wait of it. -/
theorem publish_case {sid : ℕ} {thread : SupervisorThread}
    (hget : w.supervisors[sid]? = some thread) (hactive : w.registry.parentActive thread.owner)
    (hok : w.Attended (.supervisor sid .publish))
    (h : w.step (.supervisor sid .publish) = some w') :
    (∃ parent work status metadata, thread.owner.recordParent.bind w.registry.lookup = some parent ∧
      work.workMessage = completionMessage thread.owner parent status metadata ∧
      w'.registry.recordMail parent = (w.registry.recordMail parent).enqueueSubagentWork work) ∨
    ∃ (wid : ℕ) (wait wait' : WaitThread), w.waits[wid]? = some wait ∧ wait.pc = .waiting ∧
      wait.caller = thread.owner.recordParent ∧ w'.waits[wid]? = some wait' ∧
      thread.owner ∈ wait'.owed := by
  simp only [step, hget, Option.bind_some, supervise] at h
  split at h
  · rename_i work status hpc
    cases h
    by_cases hleft : w.registry.leftToWait thread.owner
    · have hchild : w.left (.supervisor sid .publish) = some thread.owner := by
        simp only [left, hget, Option.bind_some]
        rw [if_pos hleft]
      obtain ⟨-, wait, hmem, hattends⟩ := hok.1 thread.owner hchild
      obtain ⟨wid, hwid⟩ := mem_iff_getElem?.mp hmem
      have hparts := hattends
      simp only [WaitThread.attends, Bool.and_eq_true, beq_iff_eq] at hparts
      obtain ⟨⟨⟨hwaiting, -⟩, hcaller⟩, -⟩ := hparts
      refine .inr ⟨wid, wait, wait.owe thread.owner, hwid, ?_, hcaller, ?_, ?_⟩
      · revert hwaiting
        cases wait.pc <;> simp [WaitPc.isWaiting]
      · simp only [hleft, if_true, List.getElem?_map, hwid, map_some]
      · rw [WaitThread.owe, if_pos hattends]
        exact mem_cons_self
    -- no wait is registered for it, so the active parent gets it as mail
    · obtain ⟨parent, hparent, hrouted⟩ :=
        completionParent_of_active hactive (Bool.eq_false_iff.mpr hleft)
      obtain ⟨hnone, -⟩ | ⟨routed, mail, hroute, -, hmessage, heq⟩ :=
        publishCompletion_case w.registry thread.owner status (completionMetadata work)
      · rw [hnone] at hrouted
        cases hrouted
      · rw [hrouted, some.injEq] at hroute
        subst hroute
        refine .inl ⟨parent, mail, status, completionMetadata work, hparent, hmessage, ?_⟩
        simp only [setSupervisor, heq, enqueueWork, setMail, update_self]
        rfl
  · cases h

end RegistryWorld

/-- What a wait has returned. -/
def WaitPc.result : WaitPc → Option (SubagentId → Option SubagentStatus)
  | .returned statuses _ => some statuses
  | _ => none

/-- The agent `['y']` below the example child is spawned and runs. -/
def grandchildRun : List RegistryEvent :=
  childRun ++ [.spawn { exampleSpawn ['y'] ['b'] (some 1) with parentId := some ['x'] }] ++
    startSpawned 1 1 ++ beginRun 1

/-- The child waits for it, and returns when it has completed. -/
def waitRun : List RegistryEvent :=
  grandchildRun ++ [.wait (some ['x']) (some [['y']])] ++ endRun 1 ++
    [.supervisor 1 .publish, .supervisor 1 .notify, .supervisor 1 .finish,
      .waiting 0 (.select false), .waiting 0 .unregister]

/-- A second agent below the example child. -/
def exampleSibling : SubagentRecord where
  recordRef := 2
  recordId := ['z']
  recordParent := some ['x']
  recordDepth := 2
  recordTaskPath := taskPathRoot ++ ['/', 'a', '/', 'c']

/-- The child waits for both; the first completes and ends the wait, the second completes before the
wait has unregistered. -/
def lostCompletionRun : List RegistryEvent :=
  grandchildRun ++ [.spawn { exampleSpawn ['z'] ['c'] (some 1) with parentId := some ['x'] }] ++
    startSpawned 2 2 ++ beginRun 2 ++ [.wait (some ['x']) (some [['y'], ['z']])] ++ endRun 1 ++
    [.supervisor 1 .publish, .supervisor 1 .notify, .supervisor 1 .finish] ++ endRun 2 ++
    [.waiting 0 (.select false), .supervisor 2 .publish, .waiting 0 .unregister]

/-- A supervisor that is about to notify nobody of a completion. -/
def SupervisorPc.notifiesNobody : SupervisorPc → Bool
  | .notifying _ status notifyRoot => status = .completed none ∧ notifyRoot = false
  | _ => false

end HaskellAgent
