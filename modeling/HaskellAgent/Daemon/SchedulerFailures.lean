import HaskellAgent.Daemon.SchedulingInvariant

/-!
# Where the scheduler of the daemon stops

An exception of the journal is not handled by the loop, and ends it.  So the loop keeps running, and
answers its commands, exactly as long as every record that a step stores meets the bounds of the
journal.
-/

open Option Machine

namespace HaskellAgent.Daemon

open HaskellAgent.Wire CutProgram

variable {library : DaemonLibrary} {config : JournalConfig}

/-! ### What a step stores -/

/-- A record of the journal: a task, or an event of another type. -/
inductive Write
  | task (task : DurableTask)
  | event (eventType : Text) (payload : Json)

section Writes

variable (library config)

/-- The journal takes a record. -/
def Write.Admitted (write : Write) (host : SchedulerHost) : Prop :=
  match write with
  | .task stored => TaskAdmitted library config host.journal stored
  | .event eventType payload => EventAdmitted library config host.journal host.disk eventType payload

/-- The journal takes tasks one after the other. -/
def TasksAdmitted : Journal → Disk → List DurableTask → Prop
  | _, _, [] => True
  | journal, disk, task :: tasks =>
    TaskAdmitted library config journal task ∧
      TasksAdmitted ((persistTask library config journal task).complete succeed disk).2.1
        ((persistTask library config journal task).complete succeed disk).1 tasks

end Writes

def submittedTask (now : UTCTime) (submitted : SubmitCommand) : DurableTask where
  taskId := submitted.submittedId
  sessionId := submitted.submittedSessionId
  status := .queued
  description := redactedTaskDescription
  workingDirectory := submitted.submittedWorkingDirectory
  provider := submitted.submittedProvider
  model := submitted.submittedModel
  effort := submitted.submittedEffort
  worktree := submitted.submittedWorktree
  attempt := 1
  updatedAt := now
  logTail := []

/-- The record that a command stores, unless it is refused or stores none. -/
def commandWrite (now : UTCTime) (state : AdapterState) : TaskCommand → Option Write
  | .submit submitted =>
    if (state.adapterTasks.lookup submitted.submittedId).isSome then none
    else some (.task (submittedTask now submitted))
  | .cancel taskId =>
    (state.adapterTasks.lookup taskId).bind fun task =>
      if isActive task = true then some (.task { task with status := .cancelled, updatedAt := now })
      else none
  | .list => none
  | .setLimit limit => some (.event "scheduler_limit_changed".toList (limitJson limit))
  | .approval _ _ _ => none
  | .retry taskId =>
    (state.adapterTasks.lookup taskId).bind fun task =>
      if isActive task = true ∨ (state.adapterInputs.lookup taskId).isNone ∨
          task.status = .completed then none
      else some (.task
        { task with
          status := .queued
          attempt := task.attempt + 1
          updatedAt := now
          logTail := [] })

def logWrite (now : UTCTime) (state : AdapterState) (taskId : TaskId) (attempt : Int64)
    (line : Text) : Option Write :=
  (state.adapterTasks.lookup taskId).bind fun task =>
    if task.status = .running ∧ task.attempt = attempt then
      some (.task { task with updatedAt := now, logTail := task.logTail ++ [line] })
    else none

def finishWrite (now : UTCTime) (state : AdapterState) (taskId : TaskId) (attempt : Int64)
    (result : Except Text Unit) : Option Write :=
  (state.adapterRunning.lookup taskId).bind fun running =>
    (state.adapterTasks.lookup taskId).bind fun task =>
      if running.runningAttempt = attempt ∧ task.status = .running ∧ task.attempt = attempt then
        some (.task
          { task with
            status := finishedStatus result
            updatedAt := now
            logTail := task.logTail ++ finishedLog result })
      else none

/-- The record that a message stores. -/
def messageWrite (now : UTCTime) (state : AdapterState) : AdapterMessage → Option Write
  | .execute command _ active => if active = true then commandWrite now state command else none
  | .taskLogged taskId attempt line => logWrite now state taskId attempt line
  | .taskLogTruncated taskId attempt => logWrite now state taskId attempt truncatedLogLine
  | .taskFinished taskId attempt result => finishWrite now state taskId attempt result

/-- The tasks that a pass stores as running. -/
def startedTasks (now : TaskId → UTCTime) (tasks : FinMap TaskId DurableTask)
    (taskIds : List TaskId) : List DurableTask :=
  taskIds.filterMap fun taskId =>
    (tasks.lookup taskId).map fun task => { task with status := .running, updatedAt := now taskId }

/-- **What a step stores meets the bounds of the journal.** -/
def StepAdmitted (library : DaemonLibrary) (config : JournalConfig) (w : SchedulerWorld) :
    SchedulerEvent → Prop
  | .start now =>
    TasksAdmitted library config w.host.journal w.host.disk
      (startedTasks now w.state.adapterTasks (selected w.state))
  | .message now received =>
    ∀ write ∈ messageWrite now w.state received, write.Admitted library config w.host

/-! ### Functions that succeed -/

def Succeeds {α : Type} (outcome : Outcome α) : Prop := ∃ a, outcome = .ok a

@[simp] theorem succeeds_ok {α : Type} (a : α) : Succeeds (.ok a : Outcome α) := ⟨a, rfl⟩

@[simp] theorem succeeds_pure {α : Type} (a : α) : Succeeds (pure a : Outcome α) := ⟨a, rfl⟩

/-- What only goes on succeeds where it begins so. -/
theorem succeeds_bind {α β : Type} {x : Outcome α} {f : α → Outcome β}
    (hf : ∀ a, Succeeds (f a)) : Succeeds (x >>= f) ↔ Succeeds x := by
  constructor
  · rintro ⟨b, h⟩
    obtain ⟨a, ha, -⟩ := bind_eq_ok.mp h
    exact ⟨a, ha⟩
  · rintro ⟨a, rfl⟩
    exact hf a

section Succeeding

variable {host : SchedulerHost} {state : AdapterState} {now : UTCTime}

/-- A task is stored as the journal bounds it. -/
theorem persistBounded_eq (hlibrary : library.Lawful) {task : DurableTask}
    (h : TaskAdmitted library config host.journal task) :
    persistBounded library config host task =
      .ok ({ host with
          disk := ((persistTask library config host.journal task).complete succeed host.disk).1
          journal := ((persistTask library config host.journal task).complete succeed host.disk).2.1 },
        boundTaskLog library config task) := by
  have hread : durableTaskDecoder library (taskEvent library config host.journal task).payload =
      some (boundTaskLog library config task) := durableTask_written hlibrary _
  rw [persistBounded, complete_persistTask h]
  dsimp only
  rw [hread]

theorem succeeds_persistBounded (hlibrary : library.Lawful) {task : DurableTask} :
    Succeeds (persistBounded library config host task) ↔
      TaskAdmitted library config host.journal task := by
  constructor
  · rintro ⟨r, h⟩
    by_contra hnot
    obtain ⟨err, hrefused⟩ := refused_persistTask host.disk hnot
    rw [persistBounded, hrefused] at h
    cases h
  · intro h
    exact ⟨_, persistBounded_eq hlibrary h⟩

theorem succeeds_recordEvent {eventType : Text} {payload : Json} :
    Succeeds (recordEvent library config host eventType payload) ↔
      EventAdmitted library config host.journal host.disk eventType payload := by
  constructor
  · rintro ⟨r, h⟩
    by_contra hnot
    obtain ⟨disk, journal, err, hrefused⟩ := refused_appendEvent hnot
    rw [recordEvent, hrefused] at h
    cases h
  · intro h
    rw [recordEvent, complete_appendEvent h]
    exact ⟨_, rfl⟩

@[simp] theorem cancelWorker_journal (running : Option RunningTask) :
    (host.cancelWorker running).journal = host.journal := by
  cases running <;> rfl

@[simp] theorem forget_journal (taskId : TaskId) : (host.forget taskId).journal = host.journal := rfl

section

variable (hlibrary : library.Lawful)
include hlibrary

theorem succeeds_executeCommand {command : TaskCommand} :
    Succeeds (executeCommand library config now host state command) ↔
      ∀ write ∈ commandWrite now state command, write.Admitted library config host := by
  cases command with
  | submit submitted =>
    change Succeeds (executeSubmit library config now host state submitted) ↔ _
    rw [executeSubmit, commandWrite]
    split
    · simp
    · refine (succeeds_bind fun r => ⟨_, rfl⟩).trans ((succeeds_persistBounded hlibrary).trans ?_)
      simp [Write.Admitted, submittedTask]
  | cancel taskId =>
    change Succeeds (executeCancel library config now host state taskId) ↔ _
    rw [executeCancel, commandWrite]
    cases htask : state.adapterTasks.lookup taskId with
    | none => simp
    | some task =>
      dsimp only [Option.bind_some]
      by_cases hactive : isActive task = true
      · rw [if_neg (by simp [hactive]), if_pos hactive]
        refine (succeeds_bind fun r => ⟨_, rfl⟩).trans ((succeeds_persistBounded hlibrary).trans ?_)
        rw [forget_journal, cancelWorker_journal]
        simp [Write.Admitted]
      · rw [if_pos (by simpa using hactive), if_neg hactive]
        simp
  | list => simp [executeCommand, executeList, commandWrite]
  | setLimit limit =>
    change Succeeds (executeSetLimit library config host state limit) ↔ _
    rw [executeSetLimit]
    refine (succeeds_bind fun r => ⟨_, rfl⟩).trans (succeeds_recordEvent.trans ?_)
    simp [commandWrite, Write.Admitted]
  | approval taskId approvalId decision =>
    change Succeeds (executeApproval host state taskId) ↔ _
    rw [executeApproval]
    split
    · split <;> simp [commandWrite]
    · simp [commandWrite]
  | retry taskId =>
    change Succeeds (executeRetry library config now host state taskId) ↔ _
    rw [executeRetry, commandWrite]
    cases htask : state.adapterTasks.lookup taskId with
    | none => simp
    | some task =>
      dsimp only [Option.bind_some]
      by_cases hrefused : isActive task = true ∨ (state.adapterInputs.lookup taskId).isNone ∨
          task.status = .completed
      · rw [if_pos hrefused]
        refine iff_of_true ?_ (fun write hwrite => by simp at hwrite)
        by_cases hactive : isActive task = true
        · rw [if_pos hactive]
          exact succeeds_ok _
        rw [if_neg hactive]
        by_cases hinput : (state.adapterInputs.lookup taskId).isNone = true
        · rw [if_pos hinput]
          exact succeeds_ok _
        rw [if_neg hinput, if_pos ((hrefused.resolve_left hactive).resolve_left hinput)]
        exact succeeds_ok _
      · rw [if_neg hrefused]
        simp only [not_or] at hrefused
        rw [if_neg hrefused.1, if_neg hrefused.2.1, if_neg hrefused.2.2]
        refine (succeeds_bind fun r => ⟨_, rfl⟩).trans ((succeeds_persistBounded hlibrary).trans ?_)
        simp [Write.Admitted]

theorem succeeds_appendLog {taskId : TaskId} {attempt : Int64}
    {line : Text} :
    Succeeds (appendLog library config now host state taskId attempt line) ↔
      ∀ write ∈ logWrite now state taskId attempt line, write.Admitted library config host := by
  rw [appendLog, logWrite]
  cases htask : state.adapterTasks.lookup taskId with
  | none => simp
  | some task =>
    dsimp only [Option.bind_some]
    by_cases hcurrent : task.status = .running ∧ task.attempt = attempt
    · rw [if_pos hcurrent, if_pos hcurrent]
      refine (succeeds_bind fun r => ⟨_, rfl⟩).trans ((succeeds_persistBounded hlibrary).trans ?_)
      simp [Write.Admitted]
    · rw [if_neg hcurrent, if_neg hcurrent]
      simp

theorem succeeds_finishTask {taskId : TaskId} {attempt : Int64}
    {result : Except Text Unit} :
    Succeeds (finishTask library config now host state taskId attempt result) ↔
      ∀ write ∈ finishWrite now state taskId attempt result, write.Admitted library config host := by
  rw [finishTask, finishWrite]
  cases hrun : state.adapterRunning.lookup taskId with
  | none => simp
  | some running =>
    dsimp only [Option.bind_some]
    by_cases hattempt : running.runningAttempt = attempt
    · rw [if_pos hattempt]
      cases htask : state.adapterTasks.lookup taskId with
      | none => simp
      | some task =>
        dsimp only [Option.bind_some]
        by_cases hcurrent : task.status = .running ∧ task.attempt = attempt
        · rw [if_pos hcurrent, if_pos ⟨hattempt, hcurrent⟩]
          refine (succeeds_bind fun r => ⟨_, rfl⟩).trans
            ((succeeds_persistBounded hlibrary).trans ?_)
          rw [forget_journal]
          simp [Write.Admitted]
        · rw [if_neg hcurrent, if_neg fun h => hcurrent h.2]
          simp
    · rw [if_neg hattempt]
      have hnone : ((state.adapterTasks.lookup taskId).bind fun task =>
          if running.runningAttempt = attempt ∧ task.status = .running ∧ task.attempt = attempt then
            some (Write.task
              { task with
                status := finishedStatus result
                updatedAt := now
                logTail := task.logTail ++ finishedLog result })
          else none) = none := by
        rw [bind_eq_none_iff]
        intro task _
        exact if_neg fun h => hattempt h.1
      rw [hnone]
      simp

/-- **A message is handled exactly where what it stores is admitted.** -/
theorem succeeds_handleMessage {message : AdapterMessage} :
    Succeeds (handleMessage library config now host state message) ↔
      ∀ write ∈ messageWrite now state message, write.Admitted library config host := by
  cases message with
  | execute command reply active =>
    rw [handleMessage, messageWrite]
    split
    · exact (succeeds_bind fun r => ⟨_, rfl⟩).trans (succeeds_executeCommand hlibrary)
    · simp
  | taskLogged taskId attempt line | taskLogTruncated taskId attempt =>
    exact succeeds_appendLog hlibrary
  | taskFinished taskId attempt result => exact succeeds_finishTask hlibrary

/-- **Tasks are launched exactly where the journal takes them one after the other.** -/
theorem succeeds_launches {now : TaskId → UTCTime}
    {inputs : FinMap TaskId DurableTask} {taskIds : List TaskId} (hnodup : taskIds.Nodup)
    (launched : Launched) :
    Succeeds (taskIds.foldlM (launch library config now inputs) launched) ↔
      TasksAdmitted library config launched.host.journal launched.host.disk
        (startedTasks now launched.tasks taskIds) := by
  induction taskIds generalizing launched with
  | nil => simp [startedTasks, TasksAdmitted]
  | cons first taskIds ih =>
    obtain ⟨hfirst, hnodup⟩ := List.nodup_cons.mp hnodup
    rw [List.foldlM_cons, startedTasks, List.filterMap_cons]
    cases htask : launched.tasks.lookup first with
    | none =>
      have hlaunch : launch library config now inputs launched first = .ok launched := by
        rw [launch, htask]
      rw [hlaunch]
      exact ih hnodup launched
    | some task =>
      simp only [map_some, TasksAdmitted]
      have hlater : ∀ task', startedTasks now (launched.tasks.insert first task') taskIds =
          startedTasks now launched.tasks taskIds := by
        intro task'
        refine List.filterMap_congr fun taskId hmem => ?_
        have hne : taskId ≠ first := fun heq => hfirst (heq ▸ hmem)
        rw [FinMap.lookup_insert_of_ne hne]
      by_cases hadmitted : TaskAdmitted library config launched.host.journal
          { task with status := .running, updatedAt := now first }
      · have hpersisted := persistBounded_eq hlibrary hadmitted
        rw [launch, htask]
        dsimp only
        rw [hpersisted]
        refine (ih hnodup _).trans ?_
        dsimp only [SchedulerHost.launchWorker]
        rw [hlater]
        exact (and_iff_right hadmitted).symm
      · refine iff_of_false ?_ fun h => hadmitted h.1
        rintro ⟨launched', h⟩
        obtain ⟨launched₁, hlaunch, -⟩ := bind_eq_ok.mp h
        rw [launch, htask] at hlaunch
        obtain ⟨r, hr, -⟩ := bind_eq_ok.mp hlaunch
        exact hadmitted ((succeeds_persistBounded hlibrary).mp ⟨r, hr⟩)

/-- **A pass succeeds exactly where the journal takes the tasks it starts.** -/
theorem succeeds_startRunnable (h : Scheduled state)
    {now : TaskId → UTCTime} :
    Succeeds (startRunnable library config now host state) ↔
      TasksAdmitted library config host.journal host.disk
        (startedTasks now state.adapterTasks (selected state)) := by
  have hnodup := (List.nodup_append.mp (h.selected_perm.nodup_iff.mpr h.nodup)).1
  rw [startRunnable, selectRunnableTasks_eq_pick]
  exact (succeeds_bind fun r => ⟨_, rfl⟩).trans (succeeds_launches hlibrary hnodup _)

end

end Succeeding

/-! ### Answers -/

section Answers

variable {host host' : SchedulerHost} {state state' : AdapterState} {now : UTCTime}

theorem replies_of_persistBounded {task persisted : DurableTask}
    (h : persistBounded library config host task = .ok (host', persisted)) :
    host'.replies = host.replies := by
  rw [persistBounded] at h
  rcases hwritten : (persistTask library config host.journal task).complete succeed host.disk with
    ⟨disk, journal, err | event⟩
  · rw [hwritten] at h
    cases h
  · rw [hwritten] at h
    dsimp only at h
    split at h
    · cases h
    · cases h
      rfl

theorem replies_of_recordEvent {eventType : Text} {payload : Json}
    (h : recordEvent library config host eventType payload = .ok host') :
    host'.replies = host.replies := by
  rw [recordEvent] at h
  split at h
  · cases h
  · cases h
    rfl

@[simp] theorem cancelWorker_replies (running : Option RunningTask) :
    (host.cancelWorker running).replies = host.replies := by
  cases running <;> rfl

/-- A command that was refused changed nothing, and no command replies by itself. -/
theorem refused_executeCommand {command : TaskCommand} {result : Except Text Json}
    (h : executeCommand library config now host state command = .ok (host', state', result)) :
    host'.replies = host.replies ∧
      ∀ message, result = .error message → host' = host ∧ state' = state := by
  cases command with
  | submit submitted =>
    change executeSubmit library config now host state submitted = _ at h
    rw [executeSubmit] at h
    split at h
    · cases h
      exact ⟨rfl, fun _ _ => ⟨rfl, rfl⟩⟩
    · obtain ⟨⟨host₁, persisted⟩, hpersisted, h⟩ := bind_eq_ok.mp h
      cases h
      exact ⟨replies_of_persistBounded hpersisted, fun message heq => by cases heq⟩
  | cancel taskId =>
    change executeCancel library config now host state taskId = _ at h
    rw [executeCancel] at h
    split at h
    · cases h
      exact ⟨rfl, fun _ _ => ⟨rfl, rfl⟩⟩
    · split at h
      · cases h
        exact ⟨rfl, fun _ _ => ⟨rfl, rfl⟩⟩
      · obtain ⟨⟨host₁, persisted⟩, hpersisted, h⟩ := bind_eq_ok.mp h
        cases h
        refine ⟨(replies_of_persistBounded hpersisted).trans ?_, fun message heq => by cases heq⟩
        exact cancelWorker_replies _
  | list =>
    cases h
    exact ⟨rfl, fun message heq => by cases heq⟩
  | setLimit limit =>
    obtain ⟨host₁, hrecorded, h⟩ := bind_eq_ok.mp h
    cases h
    exact ⟨replies_of_recordEvent hrecorded, fun message heq => by cases heq⟩
  | approval taskId approvalId decision =>
    change executeApproval host state taskId = _ at h
    rw [executeApproval] at h
    split at h
    · split at h <;>
      · cases h
        exact ⟨rfl, fun _ _ => ⟨rfl, rfl⟩⟩
    · cases h
      exact ⟨rfl, fun _ _ => ⟨rfl, rfl⟩⟩
  | retry taskId =>
    change executeRetry library config now host state taskId = _ at h
    rw [executeRetry] at h
    split at h
    · cases h
      exact ⟨rfl, fun _ _ => ⟨rfl, rfl⟩⟩
    · split_ifs at h
      all_goals try (cases h; exact ⟨rfl, fun _ _ => ⟨rfl, rfl⟩⟩)
      obtain ⟨⟨host₁, persisted⟩, hpersisted, h⟩ := bind_eq_ok.mp h
      cases h
      exact ⟨replies_of_persistBounded hpersisted, fun message heq => by cases heq⟩

end Answers

/-! ### The loop -/

def SchedulerWorld.Running (w : SchedulerWorld) : Prop := ∀ err, w.phase ≠ .stopped err

/-- A command whose client waits is answered, and where it is refused nothing else is changed. -/
def Answered (w : SchedulerWorld) (event : SchedulerEvent) (w' : SchedulerWorld) : Prop :=
  ∀ now command reply, event = .message now (.execute command reply true) →
    ∃ result, w'.host.replies = w.host.replies ++ [(reply, result)] ∧
      ∀ message, result = .error message →
        w'.state = w.state ∧ w'.host = w.host.putReply reply result

variable {w w' : SchedulerWorld} {event : SchedulerEvent}

/-- The loop goes on where the function it called succeeds. -/
theorem running_goOn {phase : Phase} (hphase : ∀ err, phase ≠ .stopped err)
    (result : Outcome (SchedulerHost × AdapterState)) :
    (w.goOn phase result).Running ↔ Succeeds result := by
  rcases result with err | ⟨host, state⟩
  · refine iff_of_false (fun h => h err rfl) ?_
    rintro ⟨r, h⟩
    cases h
  · exact iff_of_true hphase ⟨_, rfl⟩

/-- **A step goes on exactly where what it stores is admitted.** -/
theorem goes_on_iff (hlibrary : library.Lawful) (h : Scheduled w.state)
    (hstep : step library config w event = some w') :
    w'.Running ↔ StepAdmitted library config w event := by
  cases event with
  | start now =>
    rw [step] at hstep
    split at hstep
    · cases hstep
      exact (running_goOn (fun err => by simp) _).trans (succeeds_startRunnable hlibrary h)
    · cases hstep
  | message now received =>
    rw [step] at hstep
    split at hstep
    · cases hstep
      exact (running_goOn (fun err => by simp) _).trans (succeeds_handleMessage hlibrary)
    · cases hstep

/-- A command that does not end the loop is answered. -/
theorem answered_step (hstep : step library config w event = some w') (hrunning : w'.Running) :
    Answered w event w' := by
  rintro now command reply rfl
  rw [step] at hstep
  split at hstep
  · cases hstep
    obtain ⟨⟨host, state⟩, hhandled⟩ := (running_goOn (fun err => by simp) _).mp hrunning
    rw [hhandled]
    rw [handleMessage, if_pos rfl] at hhandled
    obtain ⟨⟨host₁, next, result⟩, hexecuted, h⟩ := bind_eq_ok.mp hhandled
    cases h
    obtain ⟨hreplies, hrefused⟩ := refused_executeCommand hexecuted
    refine ⟨result, ?_, fun message heq => ?_⟩
    · change host₁.replies ++ [(reply, result)] = _
      rw [hreplies]
    · obtain ⟨rfl, rfl⟩ := hrefused message heq
      exact ⟨rfl, rfl⟩
  · cases hstep

/-- **The loop of a journal that was opened keeps running, and answers each command, exactly as long
as what its steps store is admitted; a command that is refused then changes nothing.** -/
theorem scheduler_keeps_running (hlibrary : library.Lawful) {disk₀ disk : Disk} {journal : Journal}
    {now : UTCTime} (hkeyed : SnapshotKeyed library disk₀)
    (hopen : (openJournal library config now).complete succeed disk₀ = (disk, .ok journal)) :
    (∀ w, ReachableBy (step library config) (StepAdmitted library config)
      (schedulerLoop journal disk) w → w.Running) ∧
    ∀ w, Reachable (step library config) (schedulerLoop journal disk) w →
      ∀ event w', step library config w event = some w' →
        (w'.Running ↔ StepAdmitted library config w event) ∧
          (w'.Running → Answered w event w') := by
  have hscheduled : ∀ w, Reachable (step library config) (schedulerLoop journal disk) w →
      Scheduled w.state := fun w hw => (SchedulerInvariant.scheduled <| hw.invariant
        (schedulerInvariant_start (fun taskId task htask =>
          openJournal_settled hkeyed hopen htask) disk)
        fun w event w' h _ hstep => h.step hlibrary hstep)
  constructor
  · intro w hw
    cases hw with
    | refl => exact fun err heq => by cases heq
    | tail hprevious hadmitted hstep =>
      exact (goes_on_iff hlibrary (hscheduled _ hprevious.reachable) hstep).mpr hadmitted
  · intro w hw event w' hstep
    exact ⟨goes_on_iff hlibrary (hscheduled w hw) hstep, answered_step hstep⟩

/-- The second of two tasks is taken where there is room for it. -/
theorem scheduler_keeps_running_submit :
    ∃ w w', Reachable (step exampleLibrary exampleConfig)
        (schedulerLoop (newJournal ⟨emptySnapshot, []⟩) .empty) w ∧
      step exampleLibrary exampleConfig w
        (.message exampleTime (.execute (.submit (exampleSubmit "b")) 1 true)) = some w' ∧
      StepAdmitted exampleLibrary exampleConfig w
        (.message exampleTime (.execute (.submit (exampleSubmit "b")) 1 true)) ∧
      Answered w (.message exampleTime (.execute (.submit (exampleSubmit "b")) 1 true)) w' := by
  have hrun : (Machine.run (step exampleLibrary exampleConfig)
      (schedulerLoop (newJournal ⟨emptySnapshot, []⟩) .empty) (exampleEvents.take 3)).any
      (fun w : SchedulerWorld => (step exampleLibrary exampleConfig w
        (.message exampleTime (.execute (.submit (exampleSubmit "b")) 1 true))).any
        fun w' => decide (w'.phase = .starting)) = true := by
    decide +kernel
  obtain ⟨w, hw, hany⟩ := exists_reachable_of_run hrun
  obtain ⟨w', hstep, hphase⟩ := (Option.any_eq_true _ _).mp hany
  have hrunning : w'.Running := fun err heq => by
    rw [of_decide_eq_true hphase] at heq
    cases heq
  have hkeyed : SnapshotKeyed exampleLibrary .empty := fun bytes saved hbytes => by cases hbytes
  obtain ⟨hiff, hanswered⟩ := (scheduler_keeps_running exampleLibrary_lawful hkeyed
    (openJournal_empty exampleTime)).2 w hw _ w' hstep
  exact ⟨w, w', hw, hstep, hiff.mp hrunning, hanswered hrunning⟩

/-- The second of two tasks, where there is room for one, ends the loop and is not answered. -/
theorem scheduler_stopped_by_submit :
    ∃ w, Reachable (step exampleLibrary { exampleConfig with maximumTasks := 1 })
        (schedulerLoop (newJournal ⟨emptySnapshot, []⟩) .empty) w ∧
      w.phase = .stopped (.taskCapacityExceeded 1) ∧ w.host.replies.map Prod.fst = [0] := by
  have hrun : (Machine.run (step exampleLibrary { exampleConfig with maximumTasks := 1 })
      (schedulerLoop (newJournal ⟨emptySnapshot, []⟩) .empty) (exampleEvents.take 4)).any
      (fun w : SchedulerWorld => decide (w.phase = .stopped (.taskCapacityExceeded 1) ∧
        w.host.replies.map Prod.fst = [0])) = true := by
    decide +kernel
  obtain ⟨w, hw, hstopped⟩ := exists_reachable_of_run hrun
  exact ⟨w, hw, of_decide_eq_true hstopped⟩

end HaskellAgent.Daemon
