import HaskellAgent.Daemon.Journal

/-!
# Calls of the journal whose file operations succeed

A call is refused where a bound of the journal is exceeded, and then changes nothing.  Where its
bounds are met a task is stored; an event may still fail, since the snapshot is not looked at before
the events are compacted.
-/

namespace HaskellAgent.Daemon

open HaskellAgent.Wire CutProgram

variable (library : DaemonLibrary) (config : JournalConfig)

/-! ### Bounds -/

/-- The task as the journal stores it. -/
def boundedTasks (journal : Journal) (task : DurableTask) : FinMap TaskId DurableTask :=
  journal.state.durableSnapshot.tasks.insert (boundTaskLog library config task).taskId
    (boundTaskLog library config task)

def nextSequence (journal : Journal) : ℕ := journal.state.durableSnapshot.lastSequence + 1

def taskEvent (journal : Journal) (task : DurableTask) : EventEnvelope where
  sequenceNumber := nextSequence journal
  eventType := "task_changed".toList
  payload := (boundTaskLog library config task).toJson

def taskSnapshot (journal : Journal) (task : DurableTask) : JournalSnapshot where
  lastSequence := nextSequence journal
  tasks := boundedTasks library config journal task

def otherEvent (journal : Journal) (eventType : Text) (payload : Json) : EventEnvelope where
  sequenceNumber := nextSequence journal
  eventType := eventType
  payload := redactValue library payload

def otherSnapshot (journal : Journal) : JournalSnapshot :=
  { journal.state.durableSnapshot with lastSequence := nextSequence journal }

def EventFits (event : EventEnvelope) : Prop :=
  0 < config.maximumJournalBytes ∧ eventBytes library event ≤ config.maximumJournalBytes

def SnapshotFits (saved : JournalSnapshot) : Prop :=
  0 ≤ config.maximumSnapshotBytes ∧ snapshotBytes library saved ≤ config.maximumSnapshotBytes

instance (event : EventEnvelope) : Decidable (EventFits library config event) :=
  inferInstanceAs (Decidable (_ ∧ _))

instance (saved : JournalSnapshot) : Decidable (SnapshotFits library config saved) :=
  inferInstanceAs (Decidable (_ ∧ _))

/-- There are too many events, or the file of the events is too large. -/
def Compacts (events : List EventEnvelope) (fileBytes : ℕ) : Prop :=
  max 0 config.maximumEvents < events.length ∨ max 0 config.maximumJournalBytes < fileBytes

instance (events : List EventEnvelope) (fileBytes : ℕ) :
    Decidable (Compacts config events fileBytes) :=
  inferInstanceAs (Decidable (_ ∨ _))

def eventsFileBytes (disk : Disk) : ℕ := disk.events.elim 0 List.length

/-- The bounds that storing a task has to meet. -/
structure TaskAdmitted (journal : Journal) (task : DurableTask) : Prop where
  healthy : journal.poisoned = none
  capacity : ((boundedTasks library config journal task).keys.length : ℤ) ≤ max 0 config.maximumTasks
  sequence : journal.state.durableSnapshot.lastSequence ≠ maximumSequence
  event : EventFits library config (taskEvent library config journal task)
  snapshot : SnapshotFits library config (taskSnapshot library config journal task)

/-- The bounds that appending an event has to meet. -/
structure EventAdmitted (journal : Journal) (disk : Disk) (eventType : Text) (payload : Json) :
    Prop where
  healthy : journal.poisoned = none
  sequence : journal.state.durableSnapshot.lastSequence ≠ maximumSequence
  event : EventFits library config (otherEvent library journal eventType payload)
  snapshot :
    Compacts config (journal.state.retainedEvents ++ [otherEvent library journal eventType payload])
        (eventsFileBytes disk +
          eventBytes library (otherEvent library journal eventType payload)) →
      SnapshotFits library config (otherSnapshot journal)

variable {library config} {journal : Journal} {disk : Disk}

theorem ensureHealthy_eq_ok {journal : Journal} {u : Unit} :
    ensureHealthy journal = .ok u ↔ journal.poisoned = none := by
  unfold ensureHealthy
  split <;> simp_all

theorem nextSequenceAfter_eq_ok {n m : ℕ} :
    nextSequenceAfter n = .ok m ↔ n ≠ maximumSequence ∧ m = n + 1 := by
  unfold nextSequenceAfter
  split_ifs with h
  · simp [h]
  · simp [h, eq_comm]

theorem ensureEventFits_eq_ok {event : EventEnvelope} {u : Unit} :
    ensureEventFits library config event = .ok u ↔ EventFits library config event := by
  unfold ensureEventFits EventFits
  split_ifs with h
  · refine ⟨fun h => by simp at h, fun hfits => ?_⟩
    omega
  · refine ⟨fun _ => ?_, fun _ => rfl⟩
    omega

variable {saved : JournalSnapshot} {task : DurableTask}

theorem ensureSnapshotFits_eq_ok {u : Unit} :
    ensureSnapshotFits library config saved = .ok u ↔ SnapshotFits library config saved := by
  unfold ensureSnapshotFits SnapshotFits
  split_ifs with h
  · refine ⟨fun h => by simp at h, fun hfits => ?_⟩
    omega
  · refine ⟨fun _ => ?_, fun _ => rfl⟩
    omega

theorem enforceTaskCapacity_eq_ok {tasks tasks' : FinMap TaskId DurableTask} :
    enforceTaskCapacity config tasks = .ok tasks' ↔
      (tasks.keys.length : ℤ) ≤ max 0 config.maximumTasks ∧ tasks' = tasks := by
  unfold enforceTaskCapacity
  split_ifs with h
  · simp [h, eq_comm]
  · simp [h]

theorem bind_eq_ok {ε α β : Type} {x : Except ε α} {f : α → Except ε β} {b : β} :
    (x >>= f) = .ok b ↔ ∃ a, x = .ok a ∧ f a = .ok b := by
  constructor
  · intro h
    cases x with
    | error err => cases h
    | ok a => exact ⟨a, rfl, h⟩
  · rintro ⟨a, rfl, h⟩
    exact h

/-- An event is prepared where its own bounds are met. -/
theorem preparedEvent_eq_ok {eventType : Text} {payload : Json} {r : EventEnvelope × JournalState} :
    preparedEvent library config journal eventType payload = .ok r ↔
      (journal.poisoned = none ∧ journal.state.durableSnapshot.lastSequence ≠ maximumSequence ∧
        EventFits library config (otherEvent library journal eventType payload)) ∧
      r = (otherEvent library journal eventType payload,
        ⟨otherSnapshot journal,
          journal.state.retainedEvents ++ [otherEvent library journal eventType payload]⟩) := by
  simp only [preparedEvent, bind_eq_ok, ensureHealthy_eq_ok, nextSequenceAfter_eq_ok,
    ensureEventFits_eq_ok]
  constructor
  · rintro ⟨_, hhealthy, n, ⟨hsequence, rfl⟩, _, hfits, hr⟩
    cases hr
    exact ⟨⟨hhealthy, hsequence, hfits⟩, rfl⟩
  · rintro ⟨⟨hhealthy, hsequence, hfits⟩, rfl⟩
    exact ⟨(), hhealthy, _, ⟨hsequence, rfl⟩, (), hfits, rfl⟩

/-- A task is prepared where its bounds are met. -/
theorem preparedTask_eq_ok {r : EventEnvelope × JournalState} :
    preparedTask library config journal task = .ok r ↔
      TaskAdmitted library config journal task ∧
      r = (taskEvent library config journal task,
        ⟨taskSnapshot library config journal task,
          journal.state.retainedEvents ++ [taskEvent library config journal task]⟩) := by
  simp only [preparedTask, bind_eq_ok, ensureHealthy_eq_ok, nextSequenceAfter_eq_ok,
    ensureEventFits_eq_ok, ensureSnapshotFits_eq_ok, enforceTaskCapacity_eq_ok]
  constructor
  · rintro ⟨_, hhealthy, tasks, ⟨hcapacity, rfl⟩, n, ⟨hsequence, rfl⟩, _, hfits, _, hsnapshot, hr⟩
    cases hr
    exact ⟨⟨hhealthy, hcapacity, hsequence, hfits, hsnapshot⟩, rfl⟩
  · rintro ⟨h, rfl⟩
    exact ⟨(), h.healthy, _, ⟨h.capacity, rfl⟩, _, ⟨h.sequence, rfl⟩, (), h.event, (), h.snapshot,
      rfl⟩

/-! ### Programs whose operations succeed -/

theorem complete_writeSnapshot (h : SnapshotFits library config saved)
    (disk : Disk) :
    (writeSnapshot library config saved).complete succeed disk =
      (disk.put (encode library saved.toJson) .snapshot, .ok ()) := by
  have hfits : ensureSnapshotFits library config saved = .ok () := ensureSnapshotFits_eq_ok.mpr h
  rw [writeSnapshot, hfits]
  rfl

theorem complete_writeSnapshot_refused
    (h : ¬ SnapshotFits library config saved) (disk : Disk) :
    ∃ err, (writeSnapshot library config saved).complete succeed disk = (disk, .error err) := by
  rw [writeSnapshot]
  rcases hfits : ensureSnapshotFits library config saved with err | u
  · exact ⟨err, rfl⟩
  · exact absurd (ensureSnapshotFits_eq_ok.mp hfits) h

theorem complete_appendEventFile (event : EventEnvelope) (disk : Disk) :
    (appendEventFile library event).complete succeed disk =
      (disk.append (encodeLine library event.toJson), .ok ()) := rfl

theorem ensureLastFits_append {events : List EventEnvelope} {event : EventEnvelope} :
    ensureLastFits library config (events ++ [event]) = ensureEventFits library config event := by
  rw [ensureLastFits, List.getLast?_concat]

/-- The events and the files after retention was enforced. -/
def compactedState (library : DaemonLibrary) (config : JournalConfig) (state : JournalState)
    (fileBytes : ℕ) : JournalState :=
  if Compacts config state.retainedEvents fileBytes then
    { state with retainedEvents := boundEvents library config state.retainedEvents }
  else state

def compactedDisk (library : DaemonLibrary) (config : JournalConfig) (state : JournalState)
    (disk : Disk) : Disk :=
  if Compacts config state.retainedEvents (eventsFileBytes disk) then
    (disk.put (encode library state.durableSnapshot.toJson) .snapshot).put
      (eventLines library (boundEvents library config state.retainedEvents)) .events
  else disk

@[simp] theorem compactedState_durableSnapshot (state : JournalState) (fileBytes : ℕ) :
    (compactedState library config state fileBytes).durableSnapshot = state.durableSnapshot := by
  unfold compactedState
  split <;> rfl

theorem complete_fileSizeOrZero (disk : Disk) :
    (fileSizeOrZero .events).complete succeed disk = (disk, eventsFileBytes disk) := rfl

theorem complete_enforceRetention {state : JournalState} (disk : Disk)
    (hlast : ensureLastFits library config state.retainedEvents = .ok ())
    (hsnapshot : Compacts config state.retainedEvents (eventsFileBytes disk) →
      SnapshotFits library config state.durableSnapshot) :
    (enforceRetention library config state).complete succeed disk =
      (compactedDisk library config state disk,
        .ok (compactedState library config state (eventsFileBytes disk))) := by
  rw [enforceRetention, complete_bind, complete_fileSizeOrZero, hlast, compactedDisk, compactedState]
  by_cases hcompacts : Compacts config state.retainedEvents (eventsFileBytes disk)
  · rw [if_pos hcompacts, if_pos hcompacts]
    have hwrite := complete_writeSnapshot (hsnapshot hcompacts) disk
    change (if Compacts config state.retainedEvents (eventsFileBytes disk) then _ else _ :
      Program (Except JournalError JournalState)).complete succeed disk = _
    rw [if_pos hcompacts, complete_bind, hwrite]
    rfl
  · rw [if_neg hcompacts, if_neg hcompacts]
    change (if Compacts config state.retainedEvents (eventsFileBytes disk) then _ else _ :
      Program (Except JournalError JournalState)).complete succeed disk = _
    rw [if_neg hcompacts]
    rfl

theorem complete_enforceRetention_refused (state : JournalState) (disk : Disk)
    (hlast : ensureLastFits library config state.retainedEvents = .ok ())
    (hcompacts : Compacts config state.retainedEvents (eventsFileBytes disk))
    (hsnapshot : ¬ SnapshotFits library config state.durableSnapshot) :
    ∃ err, (enforceRetention library config state).complete succeed disk = (disk, .error err) := by
  obtain ⟨err, hwrite⟩ := complete_writeSnapshot_refused hsnapshot disk
  refine ⟨err, ?_⟩
  rw [enforceRetention, complete_bind, complete_fileSizeOrZero, hlast]
  change (if Compacts config state.retainedEvents (eventsFileBytes disk) then _ else _ :
    Program (Except JournalError JournalState)).complete succeed disk = _
  rw [if_pos hcompacts, complete_bind, hwrite]
  rfl

theorem eventsFileBytes_append (disk : Disk) (bytes : Bytes) :
    eventsFileBytes (disk.append bytes) = eventsFileBytes disk + bytes.length := by
  cases h : disk.events with
  | none | some old => simp [eventsFileBytes, Disk.append, h]

@[simp] theorem eventsFileBytes_put_snapshot (disk : Disk) (bytes : Bytes) :
    eventsFileBytes (disk.put bytes .snapshot) = eventsFileBytes disk := rfl

/-! ### Calls -/

/-- The state that storing a task prepares, and the files before retention is enforced. -/
def taskState (library : DaemonLibrary) (config : JournalConfig) (journal : Journal)
    (task : DurableTask) : JournalState :=
  ⟨taskSnapshot library config journal task,
    journal.state.retainedEvents ++ [taskEvent library config journal task]⟩

def taskDisk (library : DaemonLibrary) (config : JournalConfig) (journal : Journal)
    (task : DurableTask) (disk : Disk) : Disk :=
  (disk.append (encodeLine library (taskEvent library config journal task).toJson)).put
    (encode library (taskSnapshot library config journal task).toJson) .snapshot

def otherState (library : DaemonLibrary) (journal : Journal) (eventType : Text) (payload : Json) :
    JournalState :=
  ⟨otherSnapshot journal,
    journal.state.retainedEvents ++ [otherEvent library journal eventType payload]⟩

def otherDisk (library : DaemonLibrary) (journal : Journal) (eventType : Text) (payload : Json)
    (disk : Disk) : Disk :=
  disk.append (encodeLine library (otherEvent library journal eventType payload).toJson)

/-- **A task is stored where it is admitted.** -/
theorem complete_persistTask (h : TaskAdmitted library config journal task) :
    (persistTask library config journal task).complete succeed disk =
      (compactedDisk library config (taskState library config journal task)
          (taskDisk library config journal task disk),
        publish config
          { journal with
            state := compactedState library config (taskState library config journal task)
              (eventsFileBytes (taskDisk library config journal task disk)) }
          (taskEvent library config journal task),
        .ok (taskEvent library config journal task)) := by
  have hretention : (enforceRetention library config (taskState library config journal task)).complete
      succeed (taskDisk library config journal task disk) = _ :=
    complete_enforceRetention _ (by
      rw [taskState, ensureLastFits_append]
      exact ensureEventFits_eq_ok.mpr h.event) fun _ => h.snapshot
  have hwrite : (writeSnapshot library config (taskSnapshot library config journal task)).complete
      succeed (disk.append (encodeLine library (taskEvent library config journal task).toJson)) = _ :=
    complete_writeSnapshot h.snapshot _
  rw [persistTask, preparedTask_eq_ok.mpr ⟨h, rfl⟩]
  simp only [persistOrPoison, complete_bind, complete_appendEventFile, hwrite]
  rw [taskDisk] at hretention
  simp only [taskState] at hretention ⊢
  rw [hretention]
  rfl

/-- **A task that is not admitted is refused, and nothing is changed.** -/
theorem refused_persistTask (disk : Disk)
    (h : ¬ TaskAdmitted library config journal task) :
    ∃ err, (persistTask library config journal task).complete succeed disk =
      (disk, journal, .error err) := by
  rcases hprepared : preparedTask library config journal task with err | r
  · exact ⟨err, by rw [persistTask, hprepared]; rfl⟩
  · exact absurd (preparedTask_eq_ok.mp hprepared).1 h

/-- **An event is appended where it is admitted.** -/
theorem complete_appendEvent {eventType : Text} {payload : Json}
    (h : EventAdmitted library config journal disk eventType payload) :
    (appendEvent library config journal eventType payload).complete succeed disk =
      (compactedDisk library config (otherState library journal eventType payload)
          (otherDisk library journal eventType payload disk),
        publish config
          { journal with
            state := compactedState library config (otherState library journal eventType payload)
              (eventsFileBytes (otherDisk library journal eventType payload disk)) }
          (otherEvent library journal eventType payload),
        .ok (otherEvent library journal eventType payload)) := by
  have hretention :
      (enforceRetention library config (otherState library journal eventType payload)).complete
      succeed (otherDisk library journal eventType payload disk) = _ :=
    complete_enforceRetention _ (by
      rw [otherState, ensureLastFits_append]
      exact ensureEventFits_eq_ok.mpr h.event) fun hcompacts => h.snapshot (by
        rw [otherDisk, eventsFileBytes_append] at hcompacts
        exact hcompacts)
  rw [appendEvent, preparedEvent_eq_ok.mpr ⟨⟨h.healthy, h.sequence, h.event⟩, rfl⟩]
  simp only [persistOrPoison, complete_bind, complete_appendEventFile]
  rw [otherDisk] at hretention
  simp only [otherState] at hretention ⊢
  rw [hretention]
  rfl

/-- **An event that is not admitted is refused.** -/
theorem refused_appendEvent {eventType : Text} {payload : Json}
    (h : ¬ EventAdmitted library config journal disk eventType payload) :
    ∃ disk' journal' err, (appendEvent library config journal eventType payload).complete succeed
      disk = (disk', journal', .error err) := by
  rcases hprepared : preparedEvent library config journal eventType payload with err | r
  · exact ⟨disk, journal, err, by rw [appendEvent, hprepared]; rfl⟩
  · obtain ⟨⟨hhealthy, hsequence, hevent⟩, rfl⟩ := preparedEvent_eq_ok.mp hprepared
    -- what is left is that the events are compacted with a snapshot that is too large
    have hnot : ¬ (Compacts config _ _ → SnapshotFits library config (otherSnapshot journal)) :=
      fun hsnapshot => h ⟨hhealthy, hsequence, hevent, hsnapshot⟩
    rw [Classical.not_imp] at hnot
    obtain ⟨err, hretention⟩ := complete_enforceRetention_refused
      (otherState library journal eventType payload)
      (otherDisk library journal eventType payload disk)
      (by
        rw [otherState, ensureLastFits_append]
        exact ensureEventFits_eq_ok.mpr hevent)
      (by
        rw [otherDisk, eventsFileBytes_append]
        exact hnot.1) hnot.2
    refine ⟨otherDisk library journal eventType payload disk,
      { journal with poisoned := some "persistence operation failed".toList }, err, ?_⟩
    rw [appendEvent, hprepared]
    simp only [persistOrPoison, complete_bind, complete_appendEventFile]
    rw [otherDisk] at hretention ⊢
    simp only [otherState] at hretention
    rw [hretention]
    rfl

end HaskellAgent.Daemon
