import HaskellAgent.Daemon.JournalWrites

/-!
# Opening the journal

What is recovered of the files is put in order and compacted, and then each task that the last
process left active is stored again as interrupted.
-/

open List

namespace HaskellAgent.Daemon

open HaskellAgent.Wire CutProgram

variable {library : DaemonLibrary} {config : JournalConfig} {journal journal' : Journal}
  {disk disk' : Disk}

/-! ### Retention -/

theorem retainFrom_prefix (maximumBytes used : ℕ) (events : List EventEnvelope) :
    retainFrom library maximumBytes used events <+: events := by
  induction events generalizing used with
  | nil => exact nil_prefix
  | cons event rest ih =>
    rw [retainFrom]
    split
    · exact nil_prefix
    · exact cons_prefix_cons.mpr ⟨rfl, ih _⟩

/-- Events are dropped from the beginning. -/
theorem boundEvents_suffix (events : List EventEnvelope) :
    boundEvents library config events <:+ events := by
  have hretain : ∀ l, retainWithinBytes library config.maximumJournalBytes l <:+ l := by
    intro l
    rw [retainWithinBytes, ← reverse_prefix, reverse_reverse]
    exact retainFrom_prefix _ _ _
  rw [boundEvents]
  split
  · exact (hretain _).trans (nil_suffix)
  · exact (hretain _).trans (drop_suffix _ _)

theorem compactedState_suffix (state : JournalState) (fileBytes : ℕ) :
    (compactedState library config state fileBytes).retainedEvents <:+ state.retainedEvents := by
  unfold compactedState
  split
  · exact boundEvents_suffix _
  · exact suffix_rfl

/-- What retention leaves of a state where it succeeds. -/
theorem of_enforceRetention {state compacted : JournalState}
    (h : (enforceRetention library config state).complete succeed disk = (disk', .ok compacted)) :
    compacted = compactedState library config state (eventsFileBytes disk) := by
  rcases hlast : ensureLastFits library config state.retainedEvents with err | u
  · rw [enforceRetention, CutProgram.complete_bind, complete_fileSizeOrZero, hlast] at h
    cases h
  · by_cases hrefused : Compacts config state.retainedEvents (eventsFileBytes disk) ∧
        ¬ SnapshotFits library config state.durableSnapshot
    · obtain ⟨err, hcomplete⟩ := complete_enforceRetention_refused state disk hlast hrefused.1 hrefused.2
      rw [hcomplete] at h
      cases h
    · have hcomplete := complete_enforceRetention disk hlast fun hcompacts => by
        by_contra hnot
        exact hrefused ⟨hcompacts, hnot⟩
      rw [hcomplete] at h
      cases h
      rfl

/-! ### The steps of opening -/

/-- A journal was opened through these steps. -/
structure OpenedFrom (library : DaemonLibrary) (config : JournalConfig) (now : UTCTime)
    (disk disk' : Disk) (journal : Journal) where
  snapshotExists : Bool
  savedSnapshot : JournalSnapshot
  savedEvents : List EventEnvelope
  recovery : Recovery
  recoveredDisk : Disk
  compacted : JournalState
  read_snapshot : ((readSnapshot library config).complete succeed disk).2 =
    .ok (snapshotExists, savedSnapshot)
  read_events : ((readEvents library config).complete succeed disk).2 = .ok savedEvents
  recover : recoverState library config snapshotExists savedSnapshot savedEvents = .ok recovery
  snapshot_eq : compacted.durableSnapshot = recovery.initialState.durableSnapshot
  retained_suffix : compacted.retainedEvents <:+ recovery.initialState.retainedEvents
  interrupt : (interruptTasksFromPreviousProcess library config now (newJournal compacted)).complete
    succeed recoveredDisk = (disk', .ok journal)

theorem complete_readPrivateFile (config : JournalConfig) (file : JournalFile) (maximumBytes : ℤ)
    (disk : Disk) :
    ((readPrivateFile config file maximumBytes).complete succeed disk).1 = disk := by
  rw [readPrivateFile]
  simp only [complete_perform, succeed]
  cases disk.get file with
  | none => rfl
  | some bytes =>
    dsimp only
    split <;> rfl

theorem complete_readSnapshot_disk (library : DaemonLibrary) (config : JournalConfig) (disk : Disk) :
    ((readSnapshot library config).complete succeed disk).1 = disk := by
  rw [readSnapshot, complete_bind]
  have hread := complete_readPrivateFile config .snapshot config.maximumSnapshotBytes disk
  rcases hp : (readPrivateFile config .snapshot config.maximumSnapshotBytes).complete succeed disk
    with ⟨disk', err | bytes⟩
  all_goals rw [hp] at hread
  · exact hread
  · cases bytes with
    | none => exact hread
    | some bytes =>
      dsimp only
      split <;> exact hread

theorem complete_readEvents_disk (library : DaemonLibrary) (config : JournalConfig) (disk : Disk) :
    ((readEvents library config).complete succeed disk).1 = disk := by
  rw [readEvents, complete_bind]
  have hread :=
    complete_readPrivateFile config .events config.maximumRecoveryJournalBytes disk
  rcases hp : (readPrivateFile config .events config.maximumRecoveryJournalBytes).complete succeed
    disk with ⟨disk', err | bytes⟩
  all_goals rw [hp] at hread
  · exact hread
  · cases bytes <;> exact hread

theorem of_openJournal {now : UTCTime}
    (h : (openJournal library config now).complete succeed disk = (disk', .ok journal)) :
    Nonempty (OpenedFrom library config now disk disk' journal) := by
  rw [openJournal, complete_bind] at h
  have hdisk := complete_readSnapshot_disk library config disk
  rcases hsnapshot : (readSnapshot library config).complete succeed disk with ⟨disk₁, err | read⟩
  · rw [hsnapshot] at h
    cases h
  rw [hsnapshot] at h hdisk
  obtain ⟨snapshotExists, savedSnapshot⟩ := read
  dsimp only at h hdisk
  subst hdisk
  rw [complete_bind] at h
  have hdisk := complete_readEvents_disk library config disk₁
  rcases hevents : (readEvents library config).complete succeed disk₁ with ⟨disk₂, err | savedEvents⟩
  · rw [hevents] at h
    cases h
  rw [hevents] at h hdisk
  dsimp only at h hdisk
  subst hdisk
  rcases hrecover : recoverState library config snapshotExists savedSnapshot savedEvents with
    err | recovery
  · rw [hrecover] at h
    cases h
  rw [hrecover] at h
  dsimp only at h
  rw [complete_bind] at h
  generalize (replaceUnless _ _).complete succeed disk₂ = result at h
  obtain ⟨disk₃, err | u⟩ := result
  · cases h
  dsimp only at h
  rw [complete_bind] at h
  generalize (replaceUnless _ _).complete succeed disk₃ = result at h
  obtain ⟨disk₄, err | u⟩ := result
  · cases h
  dsimp only at h
  rw [complete_bind] at h
  rcases hretention : (enforceRetention library config recovery.initialState).complete succeed disk₄
    with ⟨disk₅, err | compacted⟩
  · rw [hretention] at h
    cases h
  rw [hretention] at h
  obtain rfl := of_enforceRetention hretention
  exact ⟨{
    snapshotExists, savedSnapshot, savedEvents, recovery
    recoveredDisk := disk₅
    compacted := _
    read_snapshot := by rw [hsnapshot]
    read_events := by rw [hevents]
    recover := hrecover
    snapshot_eq := compactedState_durableSnapshot _ _
    retained_suffix := compactedState_suffix _ _
    interrupt := h }⟩

/-! ### What is recovered -/

/-- Each task is under its own id. -/
def Keyed (tasks : FinMap TaskId DurableTask) : Prop :=
  ∀ taskId task, tasks.lookup taskId = some task → task.taskId = taskId

/-- The snapshot has each task under its own id. -/
def SnapshotKeyed (library : DaemonLibrary) (disk : Disk) : Prop :=
  ∀ bytes saved, disk.snapshot = some bytes →
    eitherDecodeStrict library (snapshotDecoder library) bytes = .ok saved → Keyed saved.tasks

theorem keyed_empty : Keyed FinMap.empty := by
  intro taskId task h
  simp at h

theorem Keyed.insert {tasks : FinMap TaskId DurableTask} (h : Keyed tasks) (task : DurableTask) :
    Keyed (tasks.insert task.taskId task) := by
  intro taskId other hlookup
  rw [FinMap.lookup_insert] at hlookup
  split at hlookup
  · next heq =>
    obtain rfl := Option.some.inj hlookup
    exact heq.symm
  · exact h taskId other hlookup

theorem of_readSnapshot {exists' : Bool} {saved : JournalSnapshot}
    (h : ((readSnapshot library config).complete succeed disk).2 = .ok (exists', saved)) :
    (exists' = false ∧ saved = emptySnapshot) ∨
      exists' = true ∧ ∃ bytes, disk.snapshot = some bytes ∧
        eitherDecodeStrict library (snapshotDecoder library) bytes = .ok saved := by
  rw [readSnapshot, complete_bind, readPrivateFile] at h
  simp only [complete_perform, succeed] at h
  cases hbytes : disk.get .snapshot with
  | none =>
    rw [hbytes] at h
    cases h
    exact .inl ⟨rfl, rfl⟩
  | some bytes =>
    rw [hbytes] at h
    dsimp only at h
    by_cases hsize : config.maximumSnapshotBytes < 0 ∨
      config.maximumSnapshotBytes < (bytes.length : ℤ)
    · rw [if_pos hsize] at h
      cases h
    · rw [if_neg hsize] at h
      dsimp only [complete_done] at h
      rcases hdecode : eitherDecodeStrict library (snapshotDecoder library) bytes with message | decoded
      · rw [hdecode] at h
        cases h
      · rw [hdecode] at h
        cases h
        exact .inr ⟨rfl, bytes, hbytes, hdecode⟩

/-- What is recovered was recovered through these steps. -/
theorem of_recoverState {snapshotExists : Bool} {savedSnapshot : JournalSnapshot}
    {savedEvents : List EventEnvelope} {recovery : Recovery}
    (h : recoverState library config snapshotExists savedSnapshot savedEvents = .ok recovery) :
    ∃ savedTasks recovered,
      validateEventSequence savedEvents = .ok () ∧
      validateRecoveryOrigin snapshotExists savedSnapshot.lastSequence savedEvents = .ok () ∧
      savedEvents.mapM (normaliseRecoveredEvent library config) = .ok recovery.normalisedEvents ∧
      normaliseRecoveredTasks library config savedSnapshot.tasks = .ok savedTasks ∧
      recovery.normalisedSnapshot = { savedSnapshot with tasks := savedTasks } ∧
      recovery.normalisedEvents.foldlM (recoverTask library config) recovery.normalisedSnapshot =
        .ok recovered ∧
      recovery.initialState.durableSnapshot.tasks = recovered.tasks ∧
      recovery.initialState.durableSnapshot.lastSequence =
        max recovered.lastSequence ((recovery.normalisedEvents.getLast?).elim 0 (·.sequenceNumber)) ∧
      recovery.initialState.retainedEvents = recovery.normalisedEvents := by
  simp only [recoverState, bind_eq_ok, enforceTaskCapacity_eq_ok] at h
  obtain ⟨_, hsequence, _, horigin, normalised, hnormalised, savedTasks, htasks, recovered,
    hrecovered, _, ⟨-, rfl⟩, _, -, hrecovery⟩ := h
  cases hrecovery
  exact ⟨savedTasks, recovered, hsequence, horigin, hnormalised, htasks, rfl, hrecovered, rfl, rfl,
    rfl⟩

theorem foldlM_invariant {ε α β : Type} {f : β → α → Except ε β} {P : β → Prop} {l : List α}
    (hf : ∀ b, ∀ a ∈ l, ∀ b', P b → f b a = .ok b' → P b') {b b' : β}
    (h : l.foldlM f b = .ok b') (hb : P b) : P b' := by
  induction l generalizing b with
  | nil =>
    cases h
    exact hb
  | cons a l ih =>
    rw [foldlM_cons, bind_eq_ok] at h
    obtain ⟨b₁, hstep, hrest⟩ := h
    exact ih (fun b a hmem => hf b a (mem_cons_of_mem _ hmem)) hrest
      (hf b a mem_cons_self b₁ hb hstep)

theorem Keyed.recoverTask {saved saved' : JournalSnapshot} {event : EventEnvelope}
    (hkeyed : Keyed saved.tasks) (h : Daemon.recoverTask library config saved event = .ok saved') :
    Keyed saved'.tasks := by
  unfold Daemon.recoverTask at h
  split at h
  · cases h
    exact hkeyed
  · split at h
    · cases h
      exact hkeyed
    · simp only [bind_eq_ok, enforceTaskCapacity_eq_ok] at h
      obtain ⟨task, -, _, ⟨-, rfl⟩, hsaved⟩ := h
      cases hsaved
      exact hkeyed.insert (boundTaskLog library config task)

theorem Keyed.recoverState {snapshotExists : Bool} {savedSnapshot : JournalSnapshot}
    {savedEvents : List EventEnvelope} {recovery : Recovery} (hkeyed : Keyed savedSnapshot.tasks)
    (h : Daemon.recoverState library config snapshotExists savedSnapshot savedEvents = .ok recovery) :
    Keyed recovery.initialState.durableSnapshot.tasks := by
  obtain ⟨savedTasks, recovered, -, -, -, htasks, hnormalised, hfold, hrecovered, -, -⟩ :=
    of_recoverState h
  rw [normaliseRecoveredTasks, enforceTaskCapacity_eq_ok] at htasks
  rw [hrecovered]
  refine foldlM_invariant (P := fun saved => Keyed saved.tasks)
    (fun saved event _ saved' => Keyed.recoverTask) hfold ?_
  rw [hnormalised, htasks.2]
  intro taskId task hlookup
  rw [FinMap.lookup_map, Option.map_eq_some_iff] at hlookup
  obtain ⟨original, horiginal, rfl⟩ := hlookup
  exact hkeyed taskId original horiginal

/-! ### Tasks that are stored again -/

variable {task : DurableTask}

/-- A task that was stored replaces the one of its id. -/
theorem of_persistTask {event : EventEnvelope}
    (h : (persistTask library config journal task).complete succeed disk =
      (disk', journal', .ok event)) :
    TaskAdmitted library config journal task ∧
      event = taskEvent library config journal task ∧
      journal'.state.durableSnapshot = taskSnapshot library config journal task ∧
      journal'.state.retainedEvents <:+
        journal.state.retainedEvents ++ [taskEvent library config journal task] := by
  by_cases hadmitted : TaskAdmitted library config journal task
  · rw [complete_persistTask hadmitted] at h
    cases h
    exact ⟨hadmitted, rfl, compactedState_durableSnapshot _ _, compactedState_suffix _ _⟩
  · obtain ⟨err, hrefused⟩ := refused_persistTask disk hadmitted
    rw [hrefused] at h
    cases h

/-- Tasks that are not active replace those of their ids. -/
theorem of_persistTasks {tasks : List DurableTask}
    (h : (persistTasks library config journal tasks).complete succeed disk = (disk', .ok journal'))
    (hinactive : ∀ task ∈ tasks, isActive task = false) (taskId : TaskId)
    (hlookup : journal'.state.durableSnapshot.tasks.lookup taskId = some task) :
    (journal.state.durableSnapshot.tasks.lookup taskId = some task ∧
        ∀ other ∈ tasks, other.taskId ≠ taskId) ∨
      isActive task = false ∧ task.taskId = taskId := by
  induction tasks generalizing journal disk with
  | nil =>
    cases h
    exact .inl ⟨hlookup, fun other hother => by simp at hother⟩
  | cons first tasks ih =>
    rw [persistTasks, complete_bind] at h
    rcases hfirst : (persistTask library config journal first).complete succeed disk with
      ⟨disk₁, journal₁, err | event⟩
    · rw [hfirst] at h
      cases h
    rw [hfirst] at h
    obtain ⟨-, -, hsnapshot, -⟩ := of_persistTask hfirst
    have hrest := ih h fun other hother => hinactive other (mem_cons_of_mem _ hother)
    rcases hrest with ⟨hsame, hothers⟩ | hsettled
    · rw [hsnapshot, taskSnapshot, boundedTasks, FinMap.lookup_insert] at hsame
      split at hsame
      · next heq =>
        obtain rfl := Option.some.inj hsame
        exact .inr ⟨hinactive first mem_cons_self, heq.symm⟩
      · next hne =>
        refine .inl ⟨hsame, fun other hother => ?_⟩
        rcases mem_cons.mp hother with rfl | hmem
        · exact fun heq => hne heq.symm
        · exact hothers other hmem
    · exact .inr hsettled

/-- **No task of a journal that was opened is active.** -/
theorem openJournal_settled {now : UTCTime} (hkeyed : SnapshotKeyed library disk)
    (h : (openJournal library config now).complete succeed disk = (disk', .ok journal))
    {taskId : TaskId}
    (hlookup : journal.state.durableSnapshot.tasks.lookup taskId = some task) :
    isActive task = false ∧ task.taskId = taskId := by
  obtain ⟨opened⟩ := of_openJournal h
  have hsaved : Keyed opened.savedSnapshot.tasks := by
    rcases of_readSnapshot opened.read_snapshot with ⟨-, hempty⟩ | ⟨-, bytes, hbytes, hdecode⟩
    · rw [hempty]
      exact keyed_empty
    · exact hkeyed bytes _ hbytes hdecode
  have hrecovered : Keyed opened.compacted.durableSnapshot.tasks := by
    rw [opened.snapshot_eq]
    exact hsaved.recoverState opened.recover
  have hinactive : ∀ other ∈ (opened.compacted.durableSnapshot.tasks.elems.filter isActive).map
      (interruptActive now), isActive other = false := by
    intro other hother
    obtain ⟨original, -, rfl⟩ := List.mem_map.mp hother
    exact isActive_interruptActive now original
  rcases of_persistTasks opened.interrupt hinactive taskId hlookup with ⟨hsame, hothers⟩ | hsettled
  · have hid := hrecovered taskId task hsame
    refine ⟨?_, hid⟩
    -- an active task would have been stored again
    by_contra hactive
    rw [Bool.not_eq_false] at hactive
    refine hothers (interruptActive now task) (List.mem_map.mpr ⟨task, ?_, rfl⟩) ?_
    · exact mem_filter.mpr ⟨FinMap.mem_elems.mpr ⟨taskId, hsame⟩, hactive⟩
    · rw [interruptActive_taskId, hid]
  · exact hsettled

/-! ### A new journal -/

/-- The libraries as far as small numbers, texts without capitals and times are concerned. -/
def exampleLibrary : DaemonLibrary where
  renderNumber := Json.writeNumber
  parse := Json.read
  parseTime text := some ⟨text⟩
  toLower := Char.toLower
  textToLower c := [c.toLower]
  lineErrorMessage _ := []
  valueErrorMessage _ := []

theorem exampleLibrary_lawful : exampleLibrary.Lawful where
  parse_render := Json.read_render
  norm_of_parse := Json.norm_read
  newline_notMem_number := by
    intro c e hmem
    have hint : ∀ n, '\n' ∉ Json.renderInt n := by
      intro n hin
      unfold Json.renderInt at hin
      split at hin
      · rcases mem_cons.mp hin with heq | hin
        · simp at heq
        · exact absurd (Json.isDigit_toDigits _ _ hin) (by decide)
      · exact absurd (Json.isDigit_toDigits _ _ hin) (by decide)
    change '\n' ∈ Json.writeNumber c e at hmem
    unfold Json.writeNumber at hmem
    split at hmem
    · exact hint _ hmem
    · rcases mem_append.mp hmem with hin | hin
      · exact hint _ hin
      · rcases mem_cons.mp hin with heq | hin
        · simp at heq
        · exact hint _ hin
  parse_time := fun time => rfl
  redacted_lower := by decide

def exampleConfig : JournalConfig where
  directory := "/home/user/.haskell-agent/daemon".toList
  maximumEvents := 10000
  maximumJournalBytes := 16 * 1048576
  maximumTaskLogLines := 500
  maximumTaskLogCharacters := 256000
  maximumTaskDescriptionCharacters := 8192
  maximumTasks := 1000
  subscriberQueueSize := 256
  maximumSnapshotBytes := 64 * 1048576
  maximumRecoveryJournalBytes := 64 * 1048576

/-- A journal is opened where there are no files yet. -/
theorem openJournal_empty (now : UTCTime) :
    (openJournal library config now).complete succeed .empty =
      (.empty, .ok (newJournal ⟨emptySnapshot, []⟩)) := by
  have hsnapshot : (readSnapshot library config).complete succeed .empty =
      (.empty, .ok (false, emptySnapshot)) := rfl
  have hevents : (readEvents library config).complete succeed .empty = (.empty, .ok []) := rfl
  have hmap : emptySnapshot.tasks.map (boundTaskLog library config) = FinMap.empty := by
    refine FinMap.ext fun taskId => ?_
    simp [emptySnapshot]
  have hcapacity : enforceTaskCapacity config FinMap.empty = .ok FinMap.empty :=
    enforceTaskCapacity_eq_ok.mpr ⟨by simp [FinMap.empty], rfl⟩
  have hrecover : recoverState library config false emptySnapshot [] =
      .ok ⟨emptySnapshot, [], ⟨emptySnapshot, []⟩⟩ := by
    simp only [recoverState, normaliseRecoveredTasks, hmap, hcapacity, bind_eq_ok]
    exact ⟨(), rfl, (), rfl, [], rfl, FinMap.empty, rfl, emptySnapshot, rfl, FinMap.empty, hcapacity,
      (), rfl, rfl⟩
  have hretention : (enforceRetention library config ⟨emptySnapshot, []⟩).complete succeed .empty =
      (.empty, .ok ⟨emptySnapshot, []⟩) := by
    have hfits : ¬ Compacts config [] (eventsFileBytes .empty) := by
      simp [Compacts, eventsFileBytes, Disk.empty]
    have hcomplete : (enforceRetention library config ⟨emptySnapshot, []⟩).complete succeed .empty =
        _ := complete_enforceRetention .empty rfl fun hcompacts => absurd hcompacts hfits
    rw [hcomplete, compactedDisk, compactedState, if_neg hfits, if_neg hfits]
  rw [openJournal, complete_bind, hsnapshot]
  dsimp only
  rw [complete_bind, hevents]
  dsimp only
  rw [hrecover]
  dsimp only
  rw [replaceUnless, if_pos (by decide), replaceUnless, if_pos (by decide)]
  simp only [done_bind]
  rw [complete_bind, hretention]
  rfl

end HaskellAgent.Daemon
