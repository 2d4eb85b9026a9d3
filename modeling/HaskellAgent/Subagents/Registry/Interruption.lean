import HaskellAgent.Subagents.Registry.Allocation

/-!
# Interruption

An interrupter holds the lifecycle lock, marks a running record as interrupting, requests its
cancellation and waits until the supervisor has released the slot.  Two things can go wrong.  A run
that has already returned leads its supervisor to `commitRequestedSuspension`, which waits for the
same lock: then both wait for ever.  And a supervisor that has just taken its work still has to
clear the cancel flag of the turn before, which erases the request.
-/

open Option Function Machine

namespace HaskellAgent

open Registry

/-- The interrupter has marked the record and is not through with it. -/
def InterruptPc.pastMark : InterruptPc → Bool
  | .cancelling => true
  | .waiting => true
  | _ => false

def SupervisorPc.isCommitting : SupervisorPc → Bool
  | .committing _ _ => true
  | _ => false

def SupervisorPc.isStarting : SupervisorPc → Bool
  | .starting _ => true
  | _ => false

def SupervisorPc.isRunning : SupervisorPc → Bool
  | .running _ => true
  | _ => false

namespace RegistryWorld

variable {w w' : RegistryWorld} {record : SubagentRecord}

/-- An interrupter is past its mark on the record. -/
def marked (w : RegistryWorld) (record : SubagentRecord) : Bool :=
  match w.lifecycle with
  | some (.interrupting _ records pc) => record ∈ records ∧ (pc record).pastMark
  | _ => false

theorem marked_iff : w.marked record ↔ ∃ kind records pc,
    w.lifecycle = some (.interrupting kind records pc) ∧ record ∈ records ∧
      (pc record).pastMark := by
  unfold marked
  split
  · rename_i kind records pc hlock
    rw [hlock]
    simp
  · rename_i hlock
    simp only [Bool.false_eq_true, false_iff]
    rintro ⟨kind, records, pc, h, -⟩
    exact hlock kind records pc h

/-- The record that a move marks and will wait for. -/
def marks (w : RegistryWorld) : RegistryEvent → Option SubagentRecord
  | .worker record =>
      match w.lifecycle with
      | some (.interrupting kind records pc) =>
          if record ∈ records ∧ pc record = .marking ∧ (w.mark kind record).1 = .wait then
            some record
          else none
      | _ => none
  | _ => none

/-- The record whose run returns with a result, or cancelled by itself. -/
def commits (w : RegistryWorld) : RegistryEvent → Option SubagentRecord
  | .supervisor sid (.returned result) =>
      if result.commits then (w.supervisors[sid]?).map (·.owner) else none
  | _ => none

/-- The record whose cancel flag a move clears. -/
def resets (w : RegistryWorld) : RegistryEvent → Option SubagentRecord
  | .supervisor sid .reset => (w.supervisors[sid]?).map (·.owner)
  | .advance _ =>
      match w.lifecycle with
      | some (.restartReset record _) | some (.resumeReset record _ _)
      | some (.restoreReset record _ _) => some record
      | _ => none
  | _ => none

/-! ### Marked records -/

theorem beginOp_unmarked {reg : Registry} {call : LifecycleRequest} {kind : InterruptKind}
    {records : List SubagentRecord} {pc : SubagentRecord → InterruptPc}
    (h : (beginOp reg call).2 = some (.interrupting kind records pc)) (r : SubagentRecord) :
    (pc r).pastMark = false := by
  cases call with
  | abortRootTurn turn | interruptActiveSubagents =>
    cases h
    rfl
  | sendInput agentId turn senderPath content metadata interrupt =>
    simp only [beginOp] at h
    split at h
    · cases h
    · obtain ⟨record, -, h⟩ := map_eq_some_iff.mp h
      cases h
  | closeSubagent agentId | interruptSubagent agentId =>
    obtain ⟨record, -, h⟩ := map_eq_some_iff.mp h
    cases h
  | _ =>
    simp only [beginOp] at h
    repeat' split at h
    all_goals cases h

variable {event : RegistryEvent}

/-- A marked record was marked before, or is marked by the move. -/
theorem marked_of_step (h : w.step event = some w')
    (hmarked : w'.marked record) :
    (w.marked record ∧ Rely w.registry w'.registry) ∨
      (w.marks event = some record ∧ w'.supervisors = w.supervisors ∧
        ∃ owner, w'.registry.recordPhase record = .interrupting owner) := by
  obtain ⟨kind, records, pc, hlock, hmem, hpast⟩ := marked_iff.mp hmarked
  rcases interrupting_of_step h hlock with ⟨hsame, hrely, -⟩ | ⟨call, -, -, rfl⟩ |
    ⟨r, before, rfl, hbefore, hr, hstep⟩
  · exact .inl ⟨marked_iff.mpr ⟨kind, records, pc, hsame ▸ hlock, hmem, hpast⟩, hrely⟩
  · rw [beginOp_unmarked hlock record] at hpast
    cases hpast
  · have hrely := interruptStep_rely hstep
    obtain ⟨next, hafter, -, -, -, hcase⟩ := interruptStep_case hstep
    have hpc : pc = Function.update before r next := by
      rw [hlock, some.injEq, LockedOp.interrupting.injEq] at hafter
      exact hafter.2.2
    by_cases hrecord : record = r
    · subst hrecord
      rw [hpc, update_self] at hpast
      rcases hcase with ⟨-, rfl, -, -⟩ | ⟨hmarking, hthreads, hnext, hreg⟩ | ⟨hcancelling, -⟩ |
        ⟨-, rfl, -⟩
      · cases hpast
      · -- the mark itself
        have hwait : (w.mark kind record).1 = .wait := by
          by_contra hne
          rw [hnext, if_neg hne] at hpast
          cases hpast
        refine .inr ⟨?_, hthreads, hreg ▸ mark_wait hwait⟩
        simp only [marks, hbefore]
        rw [if_pos ⟨hr, hmarking, hwait⟩]
      · exact .inl ⟨marked_iff.mpr ⟨kind, records, before, hbefore, hr, by rw [hcancelling]; rfl⟩,
          hrely⟩
      · cases hpast
    · rw [hpc, update_of_ne hrecord] at hpast
      exact .inl ⟨marked_iff.mpr ⟨kind, records, before, hbefore, hmem, hpast⟩, hrely⟩

/-- No marked record is pending or running. -/
def MarkedInactive (w : RegistryWorld) : Prop :=
  ∀ record, w.marked record → (w.registry.recordPhase record).isActive = false

/-- **A marked record does not become active again.** -/
theorem marked_inactive (hinv : w.MarkedInactive)
    (h : w.step event = some w') : w'.MarkedInactive := by
  intro record hmarked
  rcases marked_of_step h hmarked with ⟨hbefore, hrely⟩ | ⟨-, -, owner, hphase⟩
  · have hold := hinv record hbefore
    rw [Bool.eq_false_iff] at hold ⊢
    exact mt (hrely.active record) hold
  · rw [hphase]
    rfl

theorem init_markedInactive (config : SubagentConfig) : (init config).MarkedInactive := by
  intro record hmarked
  cases hmarked

/-! ### The lock -/

/-- No supervisor waits for the lock when an interrupter marks its record, and no run returns to
the lock once an interrupter waits for its slot. -/
def Undisturbed (w : RegistryWorld) (event : RegistryEvent) : Prop :=
  (∀ record ∈ w.marks event, ∀ thread ∈ w.supervisors, thread.owner = record →
    thread.pc.isCommitting = false) ∧
  ∀ record ∈ w.commits event,
    ¬ (w.marked record ∧ phaseHoldsSlot (w.registry.recordPhase record))

instance (w : RegistryWorld) (event : RegistryEvent) : Decidable (w.Undisturbed event) :=
  inferInstanceAs (Decidable (_ ∧ _))

/-- No interrupter is past its mark on a record with a slot whose supervisor waits for the lock. -/
def LockFree (w : RegistryWorld) : Prop :=
  ∀ record, w.marked record → phaseHoldsSlot (w.registry.recordPhase record) →
    ∀ thread ∈ w.supervisors, thread.owner = record → thread.pc.isCommitting = false

theorem init_lockFree (config : SubagentConfig) : (init config).LockFree := by
  intro record hmarked
  cases hmarked

theorem isCommitting_iff {pc : SupervisorPc} :
    pc.isCommitting ↔ ∃ work result, pc = .committing work result := by
  cases pc <;> simp [SupervisorPc.isCommitting]

theorem lockFree_step (hinv : w.LockFree) (hok : w.Undisturbed event)
    (h : w.step event = some w') : w'.LockFree := by
  intro record hmarked hslot thread hthread howner
  rw [Bool.eq_false_iff]
  intro hcommitting
  rcases marked_of_step h hmarked with ⟨hbefore, hrely⟩ | ⟨hmarks, hthreads, -⟩
  · have hold := hinv record hbefore (hrely.slots record hslot)
    cases thread_of_step h hthread with
    | same hmem =>
      rw [hold thread hmem howner] at hcommitting
      cases hcommitting
    | moved hevent hget hstep hmove =>
      rename_i sid move old
      obtain ⟨work, result, hpc⟩ := isCommitting_iff.mp hcommitting
      have holdOwner : old.owner = record := hmove.owner ▸ howner
      rcases hmove.committing work result hpc with hsame | ⟨returned, rfl, hreturned⟩
      · rw [hsame, hold old (List.mem_of_getElem? hget) holdOwner] at hcommitting
        cases hcommitting
      · refine hok.2 record ?_ ⟨hbefore, hrely.slots record hslot⟩
        simp only [commits, hevent, hreturned, if_true, hget, map_some, holdOwner]
        rfl
    | started hpc =>
      rw [hpc] at hcommitting
      cases hcommitting
    | requested hlock hmem hpc hreg holdMem hownerOld hrun =>
      obtain ⟨work, result, hpc⟩ := isCommitting_iff.mp hcommitting
      rw [show _ = SupervisorPc.committing work result from hpc] at hrun
      cases hrun
  · rw [hthreads] at hthread
    rw [hok.1 record hmarks thread hthread howner] at hcommitting
    cases hcommitting

/-- The holder of the lock is in `waitForReleasedSlot` for the record, which still has its slot. -/
def waitsForSlot (w : RegistryWorld) (record : SubagentRecord) : Bool :=
  match w.lifecycle with
  | some (.interrupting _ records pc) =>
      record ∈ records ∧ pc record = .waiting ∧ phaseHoldsSlot (w.registry.recordPhase record)
  | _ => false

theorem marked_of_waitsForSlot (h : w.waitsForSlot record) :
    w.marked record ∧ phaseHoldsSlot (w.registry.recordPhase record) := by
  unfold waitsForSlot at h
  split at h
  · rename_i kind records pc hlock
    simp only [decide_eq_true_eq] at h
    obtain ⟨hmem, hpc, hslot⟩ := h
    exact ⟨marked_iff.mpr ⟨kind, records, pc, hlock, hmem, by rw [hpc]; rfl⟩, hslot⟩
  · cases h

end RegistryWorld

/-- **No interrupter waits for a supervisor that waits for the lock**, in every state of every run
in which no supervisor waits for the lock when its record is marked, and no run returns to the lock
once an interrupter waits for its slot. -/
theorem interruption_deadlock_free {config : SubagentConfig} {w : RegistryWorld}
    (h : ReachableBy RegistryWorld.step RegistryWorld.Undisturbed (.init config) w) :
    ∀ record, w.waitsForSlot record → ∀ thread ∈ w.supervisors, thread.owner = record →
      thread.pc.isCommitting = false := by
  have hinv : w.LockFree :=
    h.invariant (RegistryWorld.init_lockFree config) fun _ _ _ hinv hok hstep =>
      RegistryWorld.lockFree_step hinv hok hstep
  intro record hwaits
  obtain ⟨hmarked, hslot⟩ := RegistryWorld.marked_of_waitsForSlot hwaits
  exact hinv record hmarked hslot

/-- A child runs for root turn 1. -/
def childRun : List RegistryEvent :=
  .spawn (exampleSpawn ['x'] ['a'] (some 1)) :: startSpawned 0 0 ++ beginRun 0

def exampleChild : SubagentRecord := exampleRecord 0 ['x'] ['a']

/-- Its root turn is aborted while it runs. -/
def abortRun : List RegistryEvent :=
  childRun ++ [.request (.abortRootTurn 1), .worker exampleChild, .worker exampleChild,
    .worker exampleChild]

theorem interruption_deadlock_free_in_abortRun :
    ∃ w, ReachableBy RegistryWorld.step RegistryWorld.Undisturbed
        (.init defaultSubagentConfig) w ∧ w.waitsForSlot exampleChild ∧
      ∀ thread ∈ w.supervisors, thread.owner = exampleChild → thread.pc.isCommitting = false := by
  have hrun : (Machine.run (guarded RegistryWorld.Undisturbed RegistryWorld.step)
      (.init defaultSubagentConfig) abortRun).any (·.waitsForSlot exampleChild) = true := by
    decide +kernel
  obtain ⟨w, hw, hwaits⟩ := exists_reachableBy_of_run hrun
  exact ⟨w, hw, hwaits, interruption_deadlock_free hw exampleChild hwaits⟩

/-- Its run returns just before the abort marks it. -/
def deadlockRun : List RegistryEvent :=
  childRun ++ [.request (.abortRootTurn 1), .worker exampleChild,
    .supervisor 0 (.returned (.finished none)), .worker exampleChild, .worker exampleChild]

/-- **An abort deadlocks.**  It waits for the slot of the child, whose supervisor waits for the lock
that the abort holds; neither of them can move. -/
theorem interruption_deadlocks :
    ∃ w, Reachable RegistryWorld.step (.init defaultSubagentConfig) w ∧
      w.waitsForSlot exampleChild ∧
      (∃ thread ∈ w.supervisors, thread.owner = exampleChild ∧ thread.pc.isCommitting) ∧
      w.step (.worker exampleChild) = none ∧ w.step (.supervisor 0 .commit) = none := by
  have hrun : (Machine.run RegistryWorld.step (.init defaultSubagentConfig) deadlockRun).any
        (fun w => w.waitsForSlot exampleChild &&
          w.supervisors.any (fun thread => thread.owner = exampleChild ∧ thread.pc.isCommitting) &&
          (w.step (.worker exampleChild)).isNone &&
          (w.step (.supervisor 0 .commit)).isNone) = true := by
    decide +kernel
  obtain ⟨w, hw, htest⟩ := exists_reachable_of_run hrun
  simp only [Bool.and_eq_true, List.any_eq_true, decide_eq_true_eq, isNone_iff_eq_none]
    at htest
  obtain ⟨⟨⟨hwaits, hthread⟩, hworker⟩, hcommit⟩ := htest
  exact ⟨w, hw, hwaits, hthread, hworker, hcommit⟩

/-! ### The request -/

namespace RegistryWorld

variable {w w' : RegistryWorld} {record : SubagentRecord}

/-- No supervisor still has to clear the cancel flag when an interrupter marks its record, and no
cancel flag is cleared while a run of its record is under way. -/
def Unerased (w : RegistryWorld) (event : RegistryEvent) : Prop :=
  (∀ record ∈ w.marks event, ∀ thread ∈ w.supervisors, thread.owner = record →
    thread.pc.isStarting = false) ∧
  ∀ record ∈ w.resets event, ∀ thread ∈ w.supervisors, thread.owner = record →
    thread.pc.isRunning = false

instance (w : RegistryWorld) (event : RegistryEvent) : Decidable (w.Unerased event) :=
  inferInstanceAs (Decidable (_ ∧ _))

theorem isStarting_iff {pc : SupervisorPc} : pc.isStarting ↔ ∃ work, pc = .starting work := by
  cases pc <;> simp [SupervisorPc.isStarting]

theorem isRunning_iff {pc : SupervisorPc} : pc.isRunning ↔ ∃ work, pc = .running work := by
  cases pc <;> simp [SupervisorPc.isRunning]

/-- The supervisor of a marked record has cleared its flag. -/
def MarkedStarted (w : RegistryWorld) : Prop :=
  ∀ record, w.marked record → ∀ thread ∈ w.supervisors, thread.owner = record →
    thread.pc.isStarting = false

variable {event : RegistryEvent}

theorem markedStarted_step (hinv : w.MarkedStarted)
    (hinactive : w.MarkedInactive) (hok : w.Unerased event) (h : w.step event = some w') :
    w'.MarkedStarted := by
  intro record hmarked thread hthread howner
  rw [Bool.eq_false_iff]
  intro hstarting
  rcases marked_of_step h hmarked with ⟨hbefore, -⟩ | ⟨hmarks, hthreads, -⟩
  · have hold := hinv record hbefore
    cases thread_of_step h hthread with
    | same hmem =>
      rw [hold thread hmem howner] at hstarting
      cases hstarting
    | moved hevent hget hstep hmove =>
      rename_i sid move old
      obtain ⟨work, hpc⟩ := isStarting_iff.mp hstarting
      have holdOwner : old.owner = record := hmove.owner ▸ howner
      rcases hmove.starting work hpc with hsame | ⟨hactive, -⟩
      · rw [hsame, hold old (List.mem_of_getElem? hget) holdOwner] at hstarting
        cases hstarting
      · rw [holdOwner, hinactive record hbefore] at hactive
        cases hactive
    | started hpc =>
      rw [hpc] at hstarting
      cases hstarting
    | requested hlock hmem hpc hreg holdMem hownerOld hrun =>
      rename_i marked kind records pc old
      have hfree := hold old holdMem howner
      rw [show old.pc.isStarting = true from hstarting] at hfree
      cases hfree
  · rw [hthreads] at hthread
    rw [hok.1 record hmarks thread hthread howner] at hstarting
    cases hstarting

variable {r : SubagentRecord}

/-- Supervisors clear the flag of their own record only, and only to start a run. -/
theorem cancel_of_effect {reg reg' : Registry} {thread : SupervisorThread} {move : SupervisorEvent}
    (h : SupervisorEffect reg thread move reg') (hr : reg.recordCancel r) :
    reg'.recordCancel r ∨ move = .reset ∧ thread.owner = r := by
  cases h with
  | take htaken =>
    obtain ⟨-, rfl⟩ | ⟨work, -, rfl⟩ := takeStartedWork_case htaken
    · exact .inl hr
    · exact .inl hr
  | reset hpc =>
    by_cases howner : thread.owner = r
    · exact .inr ⟨rfl, howner⟩
    · refine .inl ?_
      simpa [resetCancel, update_of_ne (Ne.symm howner)] using hr
  | step hpc hstep => exact .inl (hstep.cancel ▸ hr)
  | finish hpc hfinish => exact .inl ((finishSupervisorStep_case hfinish).cancel ▸ hr)
  | publish hpc =>
    obtain ⟨mail, hmail⟩ := publishCompletion_mail reg thread.owner _ _
    rw [hmail]
    exact .inl hr
  | _ => exact .inl hr

/-- A request leaves the flags that are set alone. -/
theorem cancel_of_request {reg : Registry} (hr : reg.recordCancel r) :
    (reg.requestCancel record).recordCancel r := by
  by_cases h : r = record
  · subst h
    simp [requestCancel]
  · simpa [requestCancel, update_of_ne h] using hr

theorem cancel_of_reset {reg : Registry} (hr : reg.recordCancel r) (record : SubagentRecord) :
    (reg.resetCancel record).recordCancel r ∨ record = r := by
  by_cases h : r = record
  · exact .inr h.symm
  · exact .inl (by simpa [resetCancel, update_of_ne h] using hr)

/-- Creating a record clears no other flag. -/
theorem cancel_of_allocate {reg : Registry} (hr : reg.recordCancel r) (record : SubagentRecord)
    (phase : SubagentPhase) : (reg.allocate record phase).recordCancel r ∨ record = r := by
  by_cases h : r = record
  · exact .inr h.symm
  · exact .inl (by simpa [allocate, update_of_ne h] using hr)

theorem cancel_of_mark {kind : InterruptKind} (hr : w.registry.recordCancel r) :
    (w.mark kind record).2.recordCancel r := by
  cases kind with
  | abortTurn turn =>
    simp only [mark]
    obtain ⟨-, heq⟩ | ⟨work, -, heq⟩ | ⟨owner, -, heq⟩ | ⟨owner, -, heq⟩ :=
      interruptRecordForTurn_case w.registry turn record
    all_goals
      rw [heq]
      exact hr
  | active wasClosed =>
    simp only [mark]
    obtain ⟨-, heq⟩ | ⟨work, -, heq⟩ | ⟨owner, -, heq⟩ | ⟨owner, -, heq⟩ :=
      interruptRecord_case w.registry record
    all_goals
      rw [heq]
      exact hr

/-- The holder of the lock clears a flag where it restarts, resumes or restores its record. -/
theorem cancel_of_holder {reg reg' : Registry} {op : LockedOp} (h : HolderMove reg op reg')
    (hr : reg.recordCancel r) :
    reg'.recordCancel r ∨ (∃ work, op = .restartReset r work) ∨
      (∃ work due, op = .resumeReset r work due) ∨
      (∃ request wasClosed, op = .restoreReset r request wasClosed) ∨
      r.recordRef = reg.nextRef := by
  cases h with
  | cancel record => exact .inl (cancel_of_request hr)
  | restartReset =>
    rename_i record _
    obtain hr | rfl := cancel_of_reset hr record
    · exact .inl hr
    · exact .inr (.inl ⟨_, rfl⟩)
  | resumeReset =>
    rename_i record _ _
    obtain hr | rfl := cancel_of_reset hr record
    · exact .inl hr
    · exact .inr (.inr (.inl ⟨_, _, rfl⟩))
  | restoreReset =>
    rename_i record _ _
    obtain hr | rfl := cancel_of_reset hr record
    · exact .inl hr
    · exact .inr (.inr (.inr (.inl ⟨_, _, rfl⟩)))
  | restart hturn hschedule | resume hschedule =>
    obtain ⟨-, -, rfl⟩ := scheduleIdleWork_ok hschedule
    exact .inl hr
  | settle =>
    rename_i record
    obtain ⟨status, turn, -, heq⟩ | ⟨work, next, rest, -, -, heq⟩ | ⟨work, -, heq⟩ | heq :=
      interruptPending_case reg record
    all_goals
      rw [heq]
      exact .inl hr
  | insert hrestore =>
    rename_i request record
    obtain ⟨href, -, paths, rfl⟩ := restoreMissing_ok hrestore
    obtain hr | rfl := cancel_of_allocate hr record request.normalizedPhase
    · exact .inl hr
    · exact .inr (.inr (.inr (.inr href)))
  | _ => exact .inl hr

/-- A flag that is set stays set, unless the move clears it or creates the record. -/
theorem cancel_of_step (h : w.step event = some w')
    (hr : w.registry.recordCancel r) :
    w'.registry.recordCancel r ∨ w.resets event = some r ∨
      r.recordRef = w.registry.nextRef := by
  have hmove := registry_of_step h
  generalize w'.registry = reg' at hmove
  cases hmove with
  | supervised hget heffect =>
    obtain hr | ⟨rfl, rfl⟩ := cancel_of_effect heffect hr
    · exact .inl hr
    · refine .inr (.inl ?_)
      simp only [resets, hget, map_some]
  | admitted hfree hadmission =>
    rename_i request record
    obtain ⟨-, -, href, -, work, -, rfl⟩ := admitSubagent_ok hadmission
    obtain hr | rfl := cancel_of_allocate hr record (.pending work)
    · exact .inl hr
    · exact .inr (.inr href)
  | advanced hop hholder =>
    obtain hr | ⟨work, rfl⟩ | ⟨work, due, rfl⟩ | ⟨request, wasClosed, rfl⟩ | href :=
      cancel_of_holder hholder hr
    · exact .inl hr
    · exact .inr (.inl (by simp only [resets, hop]))
    · exact .inr (.inl (by simp only [resets, hop]))
    · exact .inr (.inl (by simp only [resets, hop]))
    · exact .inr (.inr href)
  | cancelled record => exact .inl (cancel_of_request hr)
  | marked hop hmem => exact .inl (cancel_of_mark hr)
  | waited hget hreg =>
    obtain ⟨cursors, waits, rfl⟩ := hreg
    exact .inl hr
  | _ => exact .inl hr

/-- A run whose cancellation was requested is under way, and the request stands. -/
def Requested (w : RegistryWorld) : Prop :=
  ∀ thread ∈ w.supervisors, thread.requested →
    thread.pc.isRunning ∧ w.registry.recordCancel thread.owner

theorem requested_step (hinv : w.Requested) (hallocated : w.Allocated)
    (hstarted : w.MarkedStarted) (hok : w.Unerased event) (h : w.step event = some w') :
    w'.Requested := by
  -- a request that stood before the move stands after it, as long as the run goes on
  have hkeep : ∀ old ∈ w.supervisors, old.requested →
      old.pc.isRunning ∧ w'.registry.recordCancel old.owner := by
    intro old hold hrequested
    obtain ⟨hrunning, hcancel⟩ := hinv old hold hrequested
    refine ⟨hrunning, ?_⟩
    obtain hr | hresets | href := cancel_of_step h hcancel
    · exact hr
    · rw [hok.2 old.owner hresets old hold rfl] at hrunning
      cases hrunning
    · exact absurd href (hallocated.supervisors old hold).ne
  intro thread hthread hrequested
  cases thread_of_step h hthread with
  | same hmem => exact hkeep thread hmem hrequested
  | moved hevent hget hstep hmove =>
    rename_i sid move old
    obtain ⟨holdRequested, hpc⟩ := hmove.requested hrequested
    obtain ⟨hrunning, hcancel⟩ := hkeep old (List.mem_of_getElem? hget) holdRequested
    obtain ⟨work, hwork⟩ := isRunning_iff.mp hrunning
    refine ⟨?_, hmove.owner ▸ hcancel⟩
    rw [hpc work hwork]
    exact hrunning
  | started hpc hfresh =>
    rw [hfresh] at hrequested
    cases hrequested
  | requested hlock hmem hpc hreg holdMem howner hrun =>
    rename_i marked kind records pc old
    have hmarked : w.marked marked :=
      marked_iff.mpr ⟨kind, records, pc, hlock, hmem, by rw [hpc]; rfl⟩
    have hfree := hstarted marked hmarked old holdMem howner
    refine ⟨?_, ?_⟩
    · revert hrun hfree
      cases old.pc <;> simp [SupervisorPc.inRun, SupervisorPc.isStarting, SupervisorPc.isRunning]
    · rw [hreg]
      change (w.registry.requestCancel marked).recordCancel old.owner
      rw [howner]
      simp [requestCancel]

/-- What the requests rest on. -/
structure RequestInv (w : RegistryWorld) : Prop where
  allocated : w.Allocated
  inactive : w.MarkedInactive
  started : w.MarkedStarted
  requested : w.Requested

theorem init_requestInv (config : SubagentConfig) : (init config).RequestInv where
  allocated := init_allocated config
  inactive := init_markedInactive config
  started := fun _ hmarked => nomatch hmarked
  requested := fun _ hthread => nomatch hthread

theorem requestInv_step (hinv : w.RequestInv) (hok : w.Unerased event)
    (h : w.step event = some w') : w'.RequestInv where
  allocated := allocated_step hinv.allocated h
  inactive := marked_inactive hinv.inactive h
  started := markedStarted_step hinv.started hinv.inactive hok h
  requested := requested_step hinv.requested hinv.allocated hinv.started hok h

end RegistryWorld

/-- **A requested cancellation stays until the run is left**, in every state of every run in which
no supervisor still has to clear its flag when its record is marked, and no flag is cleared while a
run of its record is under way. -/
theorem interruption_not_erased {config : SubagentConfig} {w : RegistryWorld}
    (h : ReachableBy RegistryWorld.step RegistryWorld.Unerased (.init config) w) :
    ∀ thread ∈ w.supervisors, thread.requested →
      thread.pc.isRunning ∧ w.registry.recordCancel thread.owner := by
  have hinv : w.RequestInv :=
    h.invariant (RegistryWorld.init_requestInv config) fun _ _ _ hinv hok hstep =>
      RegistryWorld.requestInv_step hinv hok hstep
  exact hinv.requested

theorem interruption_not_erased_in_abortRun :
    ∃ w, ReachableBy RegistryWorld.step RegistryWorld.Unerased
        (.init defaultSubagentConfig) w ∧
      ∃ thread ∈ w.supervisors, thread.requested ∧ thread.owner = exampleChild ∧
        w.registry.recordCancel exampleChild := by
  have hrun : (Machine.run (guarded RegistryWorld.Unerased RegistryWorld.step)
      (.init defaultSubagentConfig) abortRun).any
        (fun w => w.supervisors.any fun thread =>
          thread.requested ∧ thread.owner = exampleChild) = true := by
    decide +kernel
  obtain ⟨w, hw, htest⟩ := exists_reachableBy_of_run hrun
  simp only [List.any_eq_true, decide_eq_true_eq] at htest
  obtain ⟨thread, hthread, hrequested, howner⟩ := htest
  exact ⟨w, hw, thread, hthread, hrequested, howner,
    howner ▸ (interruption_not_erased hw thread hthread hrequested).2⟩

/-- The abort comes between the start of the run and the reset of its cancel flag. -/
def erasedRun : List RegistryEvent :=
  .spawn (exampleSpawn ['x'] ['a'] (some 1)) :: startSpawned 0 0 ++
    [.supervisor 0 .take, .request (.abortRootTurn 1), .worker exampleChild, .worker exampleChild,
      .worker exampleChild, .supervisor 0 .reset]

/-- **A request is erased.**  The abort has marked the record and set its flag, and waits; the
supervisor then clears the flag and begins the run. -/
theorem interruption_erased :
    ∃ w, Reachable RegistryWorld.step (.init defaultSubagentConfig) w ∧
      w.waitsForSlot exampleChild ∧
      ∃ thread ∈ w.supervisors, thread.requested ∧ thread.owner = exampleChild ∧
        thread.pc.isRunning ∧ w.registry.recordCancel exampleChild = false := by
  have hrun : (Machine.run RegistryWorld.step (.init defaultSubagentConfig) erasedRun).any
        (fun w => w.waitsForSlot exampleChild &&
          w.supervisors.any fun thread =>
            thread.requested ∧ thread.owner = exampleChild ∧ thread.pc.isRunning ∧
              w.registry.recordCancel exampleChild = false) = true := by
    decide +kernel
  obtain ⟨w, hw, htest⟩ := exists_reachable_of_run hrun
  simp only [Bool.and_eq_true, List.any_eq_true, decide_eq_true_eq] at htest
  obtain ⟨hwaits, thread, hthread, hlost⟩ := htest
  exact ⟨w, hw, hwaits, thread, hthread, hlost⟩

end HaskellAgent
