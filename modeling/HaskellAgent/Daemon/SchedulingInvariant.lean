import HaskellAgent.Daemon.JournalOpening
import HaskellAgent.Daemon.TaskAdapter
import HaskellAgent.Lib.Machine
import Mathlib.Data.List.Pairwise

/-!
# Scheduling of the daemon's tasks

The queue holds exactly the tasks that are queued, in the order in which they were put there, and
the running tasks are exactly those that the loop has a worker for.  What a message can change is
one of a few things, and a pass that starts tasks changes only those that it selects.
-/

open List Option FinMap

namespace HaskellAgent.Daemon

open HaskellAgent.Wire CutProgram

variable {library : DaemonLibrary} {config : JournalConfig}

/-! ### Storing a task -/

/-- What comes back is the task as the journal bounds it. -/
theorem of_persistBounded (hlibrary : library.Lawful) {host host' : SchedulerHost}
    {task persisted : DurableTask}
    (h : persistBounded library config host task = .ok (host', persisted)) :
    persisted = boundTaskLog library config task := by
  rw [persistBounded] at h
  rcases hwritten : (persistTask library config host.journal task).complete succeed host.disk with
    ⟨disk, journal, err | event⟩
  · rw [hwritten] at h
    cases h
  rw [hwritten] at h
  obtain ⟨-, rfl, -⟩ := of_persistTask hwritten
  have hread : durableTaskDecoder library (taskEvent library config host.journal task).payload =
      some (boundTaskLog library config task) := durableTask_written hlibrary _
  dsimp only at h
  rw [hread] at h
  cases h
  rfl

/-! ### What a message changes -/

/-- The same task, with another status and attempt. -/
structure Becomes (task task' : DurableTask) (status : TaskStatus) (attempt : Int64) : Prop where
  taskId : task'.taskId = task.taskId
  sessionId : task'.sessionId = task.sessionId
  status : task'.status = status
  attempt : task'.attempt = attempt

/-- What a message changes in the state of the loop. -/
inductive Change (state : AdapterState) : AdapterMessage → AdapterState → Prop
  | nothing (message : AdapterMessage) : Change state message state
  | limited (limit : ℤ) (reply : ℕ) :
    Change state (.execute (.setLimit limit) reply true) { state with adapterLimit := limit }
  | submitted (submitted : SubmitCommand) (reply : ℕ) (task : DurableTask)
    (inputs : FinMap TaskId DurableTask)
    (hnew : state.adapterTasks.lookup submitted.submittedId = none)
    (hid : task.taskId = submitted.submittedId) (hstatus : task.status = .queued) :
    Change state (.execute (.submit submitted) reply true)
      { state with
        adapterPending := state.adapterPending ++ [submitted.submittedId]
        adapterTasks := state.adapterTasks.insert submitted.submittedId task
        adapterInputs := inputs }
  | cancelled (taskId : TaskId) (reply : ℕ) (task task' : DurableTask)
    (hlookup : state.adapterTasks.lookup taskId = some task) (hactive : isActive task = true)
    (hbecomes : Becomes task task' .cancelled task.attempt) :
    Change state (.execute (.cancel taskId) reply true)
      { state with
        adapterPending := state.adapterPending.filter (· ≠ taskId)
        adapterRunning := state.adapterRunning.delete taskId
        adapterTasks := state.adapterTasks.insert taskId task' }
  | retried (taskId : TaskId) (reply : ℕ) (task task' : DurableTask)
    (hlookup : state.adapterTasks.lookup taskId = some task) (hactive : isActive task = false)
    (hcompleted : task.status ≠ .completed)
    (hbecomes : Becomes task task' .queued (task.attempt + 1)) :
    Change state (.execute (.retry taskId) reply true)
      { state with
        adapterPending := state.adapterPending ++ [taskId]
        adapterTasks := state.adapterTasks.insert taskId task' }
  | logged (message : AdapterMessage) (taskId : TaskId) (task task' : DurableTask)
    (hmessage : (∃ line, message = .taskLogged taskId task.attempt line) ∨
      message = .taskLogTruncated taskId task.attempt)
    (hlookup : state.adapterTasks.lookup taskId = some task) (hrunning : task.status = .running)
    (hbecomes : Becomes task task' .running task.attempt) :
    Change state message { state with adapterTasks := state.adapterTasks.insert taskId task' }
  | finished (taskId : TaskId) (result : Except Text Unit) (running : RunningTask)
    (task task' : DurableTask) (inputs : FinMap TaskId DurableTask)
    (hrun : state.adapterRunning.lookup taskId = some running)
    (hattempt : running.runningAttempt = task.attempt)
    (hlookup : state.adapterTasks.lookup taskId = some task) (hrunning : task.status = .running)
    (hbecomes : Becomes task task' (finishedStatus result) task.attempt) :
    Change state (.taskFinished taskId task.attempt result)
      { state with
        adapterRunning := state.adapterRunning.delete taskId
        adapterTasks := state.adapterTasks.insert taskId task'
        adapterInputs := inputs }
  | workerLost (taskId : TaskId) (result : Except Text Unit) (running : RunningTask)
    (hrun : state.adapterRunning.lookup taskId = some running)
    (hlost : ∀ task, state.adapterTasks.lookup taskId = some task →
      ¬ (task.status = .running ∧ task.attempt = running.runningAttempt)) :
    Change state (.taskFinished taskId running.runningAttempt result)
      { state with adapterRunning := state.adapterRunning.delete taskId }

theorem becomes_boundTaskLog {task updated : DurableTask} (hid : updated.taskId = task.taskId)
    (hsession : updated.sessionId = task.sessionId) :
    Becomes task (boundTaskLog library config updated) updated.status updated.attempt :=
  ⟨hid, hsession, rfl, rfl⟩

section Messages

variable {now : UTCTime} {host host' : SchedulerHost} {state state' : AdapterState}

section

variable (hlibrary : library.Lawful)
include hlibrary

variable {result : Except Text Json} {taskId : TaskId}

theorem change_of_executeSubmit {submitted : SubmitCommand}
    (reply : ℕ)
    (h : executeSubmit library config now host state submitted = .ok (host', state', result)) :
    Change state (.execute (.submit submitted) reply true) state' := by
  unfold executeSubmit at h
  split at h
  · cases h
    exact .nothing _
  · next hnew =>
    rw [Bool.not_eq_true, isSome_eq_false_iff, isNone_iff_eq_none] at hnew
    simp only [bind_eq_ok] at h
    obtain ⟨⟨host₁, persisted⟩, hpersisted, h⟩ := h
    obtain rfl := of_persistBounded hlibrary hpersisted
    cases h
    exact .submitted submitted reply _ _ hnew rfl rfl

theorem change_of_executeCancel
    (reply : ℕ)
    (h : executeCancel library config now host state taskId = .ok (host', state', result)) :
    Change state (.execute (.cancel taskId) reply true) state' := by
  unfold executeCancel at h
  split at h
  · cases h
    exact .nothing _
  · next task hlookup =>
    split at h
    · cases h
      exact .nothing _
    · next hactive =>
      simp only [bind_eq_ok] at h
      obtain ⟨⟨host₁, persisted⟩, hpersisted, h⟩ := h
      obtain rfl := of_persistBounded hlibrary hpersisted
      cases h
      rw [insert_insert]
      exact .cancelled taskId reply task _ hlookup (by simpa using hactive)
        (becomes_boundTaskLog rfl rfl)

theorem change_of_executeRetry
    (reply : ℕ)
    (h : executeRetry library config now host state taskId = .ok (host', state', result)) :
    Change state (.execute (.retry taskId) reply true) state' := by
  unfold executeRetry at h
  split at h
  · cases h
    exact .nothing _
  · next task hlookup =>
    split_ifs at h with hactive hinput hcompleted hcompleted
    all_goals try (cases h; exact .nothing _)
    simp only [bind_eq_ok] at h
    obtain ⟨⟨host₁, persisted⟩, hpersisted, h⟩ := h
    obtain rfl := of_persistBounded hlibrary hpersisted
    cases h
    rw [insert_insert]
    exact .retried taskId reply task _ hlookup (by simpa using hactive) hcompleted
      (becomes_boundTaskLog rfl rfl)

theorem change_of_executeCommand {command : TaskCommand}
    (reply : ℕ)
    (h : executeCommand library config now host state command = .ok (host', state', result)) :
    Change state (.execute command reply true) state' := by
  cases command with
  | submit submitted => exact change_of_executeSubmit hlibrary reply h
  | cancel taskId => exact change_of_executeCancel hlibrary reply h
  | list =>
    cases h
    exact .nothing _
  | setLimit limit =>
    simp only [executeCommand, executeSetLimit, bind_eq_ok] at h
    obtain ⟨host₁, -, h⟩ := h
    cases h
    exact .limited limit reply
  | approval taskId approvalId decision =>
    simp only [executeCommand, executeApproval] at h
    split at h
    · split at h <;>
      · cases h
        exact .nothing _
    · cases h
      exact .nothing _
  | retry taskId => exact change_of_executeRetry hlibrary reply h

theorem change_of_appendLog {message : AdapterMessage}
    {attempt : Int64} {line : Text}
    (hmessage : (∃ line, message = .taskLogged taskId attempt line) ∨
      message = .taskLogTruncated taskId attempt)
    (h : appendLog library config now host state taskId attempt line = .ok (host', state')) :
    Change state message state' := by
  unfold appendLog at h
  split at h
  · cases h
    exact .nothing _
  · next task hlookup =>
    split at h
    · next hcurrent =>
      obtain ⟨hrunning, rfl⟩ := hcurrent
      simp only [bind_eq_ok] at h
      obtain ⟨⟨host₁, persisted⟩, hpersisted, h⟩ := h
      obtain rfl := of_persistBounded hlibrary hpersisted
      cases h
      refine .logged message taskId task _ hmessage hlookup hrunning ?_
      exact ⟨rfl, rfl, hrunning, rfl⟩
    · cases h
      exact .nothing _

theorem change_of_finishTask {attempt : Int64}
    {result : Except Text Unit}
    (h : finishTask library config now host state taskId attempt result = .ok (host', state')) :
    Change state (.taskFinished taskId attempt result) state' := by
  unfold finishTask at h
  split at h
  · cases h
    exact .nothing _
  · next running hrun =>
    split at h
    · next hattempt =>
      cases hlookup : state.adapterTasks.lookup taskId with
      | none =>
        rw [hlookup] at h
        cases h
        subst hattempt
        refine .workerLost taskId result running hrun fun task htask => ?_
        rw [hlookup] at htask
        cases htask
      | some task =>
        rw [hlookup] at h
        dsimp only at h
        split at h
        · next hcurrent =>
          obtain ⟨hrunning, rfl⟩ := hcurrent
          simp only [bind_eq_ok] at h
          obtain ⟨⟨host₁, persisted⟩, hpersisted, h⟩ := h
          obtain rfl := of_persistBounded hlibrary hpersisted
          cases h
          have hbecomes : Becomes task
              (boundTaskLog library config
                { task with
                  status := finishedStatus result
                  updatedAt := now
                  logTail := task.logTail ++ finishedLog result })
              (finishedStatus result) task.attempt := becomes_boundTaskLog rfl rfl
          split
          · exact .finished taskId result running task _ _ hrun hattempt hlookup hrunning hbecomes
          · exact .finished taskId result running task _ _ hrun hattempt hlookup hrunning hbecomes
        · next hother =>
          cases h
          subst hattempt
          refine .workerLost taskId result running hrun fun other htask hcurrent => ?_
          rw [hlookup] at htask
          cases htask
          exact hother hcurrent
    · cases h
      exact .nothing _

/-- **Every message makes one of the changes.** -/
theorem change_of_handleMessage {message : AdapterMessage}
    (h : handleMessage library config now host state message = .ok (host', state')) :
    Change state message state' := by
  cases message with
  | execute command reply active =>
    rw [handleMessage] at h
    split at h
    · next hactive =>
      simp only [bind_eq_ok] at h
      obtain ⟨⟨host₁, next, result⟩, hexecuted, h⟩ := h
      cases h
      subst hactive
      exact change_of_executeCommand hlibrary reply hexecuted
    · cases h
      exact .nothing _
  | taskLogged taskId attempt line => exact change_of_appendLog hlibrary (.inl ⟨line, rfl⟩) h
  | taskLogTruncated taskId attempt => exact change_of_appendLog hlibrary (.inr rfl) h
  | taskFinished taskId attempt result => exact change_of_finishTask hlibrary h

end

end Messages

/-! ### The parts of the state agree -/

/-- The queue holds the tasks that are queued, and the running tasks are those with a worker, of
different sessions. -/
structure Scheduled (state : AdapterState) : Prop where
  keyed : Keyed state.adapterTasks
  nodup : state.adapterPending.Nodup
  pending : ∀ taskId, taskId ∈ state.adapterPending ↔
    ∃ task, state.adapterTasks.lookup taskId = some task ∧ task.status = .queued
  running : ∀ taskId attempt,
    (∃ run, state.adapterRunning.lookup taskId = some run ∧ run.runningAttempt = attempt) ↔
    ∃ task, state.adapterTasks.lookup taskId = some task ∧ task.status = .running ∧
      task.attempt = attempt
  sessions : ∀ taskId taskId' task task' sessionId,
    state.adapterTasks.lookup taskId = some task → task.status = .running →
    task.sessionId = some sessionId →
    state.adapterTasks.lookup taskId' = some task' → task'.status = .running →
    task'.sessionId = some sessionId → taskId = taskId'

section Scheduled

variable {state state' : AdapterState} {taskId : TaskId} {task task' : DurableTask}

/-- One task is changed, and with it its place in the queue and among the running ones. -/
theorem Scheduled.insert (h : Scheduled state)
    (htasks : state'.adapterTasks = state.adapterTasks.insert taskId task')
    (hid : task'.taskId = taskId) (hnodup : state'.adapterPending.Nodup)
    (hpending : ∀ other, other ≠ taskId →
      (other ∈ state'.adapterPending ↔ other ∈ state.adapterPending))
    (hqueued : taskId ∈ state'.adapterPending ↔ task'.status = .queued)
    (hrunning : ∀ other, other ≠ taskId →
      state'.adapterRunning.lookup other = state.adapterRunning.lookup other)
    (hrun : ∀ attempt,
      (∃ run, state'.adapterRunning.lookup taskId = some run ∧ run.runningAttempt = attempt) ↔
      task'.status = .running ∧ task'.attempt = attempt)
    (hsession : task'.status = .running → ∀ sessionId, task'.sessionId = some sessionId →
      ∀ other otherTask, other ≠ taskId → state.adapterTasks.lookup other = some otherTask →
      otherTask.status = .running → otherTask.sessionId ≠ some sessionId) :
    Scheduled state' where
  keyed := by
    rw [htasks, ← hid]
    exact h.keyed.insert task'
  nodup := hnodup
  pending other := by
    rw [htasks, lookup_insert]
    by_cases hother : other = taskId
    · subst hother
      simpa using hqueued
    · rw [hpending other hother, h.pending, if_neg hother]
  running other attempt := by
    rw [htasks, lookup_insert]
    by_cases hother : other = taskId
    · subst hother
      simpa using hrun attempt
    · rw [hrunning other hother, h.running, if_neg hother]
  sessions other other' otherTask otherTask' sessionId := by
    rw [htasks, lookup_insert, lookup_insert]
    intro hlookup hstatus hsame hlookup' hstatus' hsame'
    by_cases hother : other = taskId
    · by_cases hother' : other' = taskId
      · rw [hother, hother']
      · rw [if_pos hother, some.injEq] at hlookup
        rw [if_neg hother'] at hlookup'
        subst hlookup
        exact absurd hsame' (hsession hstatus sessionId hsame other' otherTask' hother' hlookup' hstatus')
    · rw [if_neg hother] at hlookup
      by_cases hother' : other' = taskId
      · rw [if_pos hother', some.injEq] at hlookup'
        subst hlookup'
        exact absurd hsame (hsession hstatus' sessionId hsame' other otherTask hother hlookup hstatus)
      · rw [if_neg hother'] at hlookup'
        exact h.sessions other other' otherTask otherTask' sessionId hlookup hstatus hsame hlookup'
          hstatus' hsame'

/-- A task that is not running has no worker. -/
theorem Scheduled.not_running (h : Scheduled state)
    (hlookup : ∀ task, state.adapterTasks.lookup taskId = some task → task.status ≠ .running) :
    state.adapterRunning.lookup taskId = none := by
  rcases hrun : state.adapterRunning.lookup taskId with _ | run
  · rfl
  · obtain ⟨task, htask, hstatus, -⟩ := (h.running taskId run.runningAttempt).mp ⟨run, hrun, rfl⟩
    exact absurd hstatus (hlookup task htask)

theorem Scheduled.not_pending (h : Scheduled state)
    (hlookup : ∀ task, state.adapterTasks.lookup taskId = some task → task.status ≠ .queued) :
    taskId ∉ state.adapterPending := by
  intro hmem
  obtain ⟨task, htask, hstatus⟩ := (h.pending taskId).mp hmem
  exact hlookup task htask hstatus

theorem nodup_concat {l : List TaskId} (hl : l.Nodup) (h : taskId ∉ l) : (l ++ [taskId]).Nodup := by
  refine nodup_append.mpr ⟨hl, nodup_singleton taskId, ?_⟩
  intro a ha b hb heq
  rw [mem_singleton] at hb
  exact h (hb ▸ heq ▸ ha)

theorem not_active {task : DurableTask} (h : isActive task = false) :
    task.status ≠ .queued ∧ task.status ≠ .running := by
  simpa [isActive] using h

/-- What each change does to the queue. -/
theorem pending_of_change {message : AdapterMessage} (h : Scheduled state)
    (hchange : Change state message state') :
    state'.adapterPending.Sublist state.adapterPending ∨
      ∃ taskId, taskId ∉ state.adapterPending ∧
        state'.adapterPending = state.adapterPending ++ [taskId] := by
  cases hchange with
  | nothing | limited limit reply => exact .inl (List.Sublist.refl _)
  | submitted submitted reply task inputs hnew hid hstatus =>
    refine .inr ⟨submitted.submittedId, h.not_pending fun task htask => ?_, rfl⟩
    rw [hnew] at htask
    cases htask
  | cancelled taskId reply task task' hlookup hactive hbecomes => exact .inl filter_sublist
  | retried taskId reply task task' hlookup hactive hcompleted hbecomes =>
    refine .inr ⟨taskId, h.not_pending fun other hother => ?_, rfl⟩
    rw [hlookup] at hother
    cases hother
    exact (not_active hactive).1
  | logged message taskId task task' hmessage hlookup hrunning hbecomes =>
    exact .inl (List.Sublist.refl _)
  | finished | workerLost => exact .inl (List.Sublist.refl _)

/-- **The parts of the state agree after every message.** -/
theorem Scheduled.change {message : AdapterMessage} (h : Scheduled state)
    (hchange : Change state message state') : Scheduled state' := by
  cases hchange with
  | nothing => exact h
  | limited limit reply => exact ⟨h.keyed, h.nodup, h.pending, h.running, h.sessions⟩
  | submitted submitted reply task inputs hnew hid hstatus =>
    have hfresh : ∀ other, state.adapterTasks.lookup submitted.submittedId = some other → False := by
      intro other hother
      rw [hnew] at hother
      cases hother
    have hpending := h.not_pending fun other hother => (hfresh other hother).elim
    have hrunning := h.not_running fun other hother => (hfresh other hother).elim
    refine h.insert rfl hid (nodup_concat h.nodup hpending) ?_ ?_ (fun _ _ => rfl) ?_ ?_
    · intro other hne
      simp [hne]
    · simp [hstatus]
    · intro attempt
      simp [hrunning, hstatus]
    · intro hrun
      rw [hstatus] at hrun
      cases hrun
  | cancelled taskId reply task task' hlookup hactive hbecomes =>
    refine h.insert rfl (hbecomes.taskId.trans (h.keyed _ _ hlookup)) (h.nodup.filter _) ?_ ?_ ?_ ?_ ?_
    · intro other hne
      simp [hne]
    · simp [hbecomes.status]
    · intro other hne
      exact FinMap.lookup_delete_of_ne hne
    · intro attempt
      simp [hbecomes.status]
    · intro hrun
      rw [hbecomes.status] at hrun
      cases hrun
  | retried taskId reply task task' hlookup hactive hcompleted hbecomes =>
    obtain ⟨hqueued, hnotrunning⟩ := not_active hactive
    have hsame : ∀ other, state.adapterTasks.lookup taskId = some other → other = task := by
      intro other hother
      rw [hlookup] at hother
      exact (some.inj hother).symm
    have hpending := h.not_pending fun other hother => hsame other hother ▸ hqueued
    have hrunning := h.not_running fun other hother => hsame other hother ▸ hnotrunning
    refine h.insert rfl (hbecomes.taskId.trans (h.keyed _ _ hlookup)) (nodup_concat h.nodup hpending)
      ?_ ?_ (fun _ _ => rfl) ?_ ?_
    · intro other hne
      simp [hne]
    · simp [hbecomes.status]
    · intro attempt
      simp [hrunning, hbecomes.status]
    · intro hrun
      rw [hbecomes.status] at hrun
      cases hrun
  | logged message taskId task task' hmessage hlookup hrunning hbecomes =>
    have hpending : taskId ∉ state.adapterPending := h.not_pending fun other hother => by
      rw [hlookup] at hother
      cases hother
      rw [hrunning]
      decide
    refine h.insert rfl (hbecomes.taskId.trans (h.keyed _ _ hlookup)) h.nodup (fun _ _ => Iff.rfl) ?_
      (fun _ _ => rfl) ?_ ?_
    · simp [hpending, hbecomes.status]
    · intro attempt
      rw [h.running, hbecomes.status, hbecomes.attempt]
      simp [hlookup, hrunning]
    · intro _ sessionId hsession other otherTask hne hother hstatus hsame
      rw [hbecomes.sessionId] at hsession
      exact hne (h.sessions _ _ _ _ _ hother hstatus hsame hlookup hrunning hsession)
  | finished taskId result running task task' inputs hrun hattempt hlookup hrunning hbecomes =>
    have hpending : taskId ∉ state.adapterPending := h.not_pending fun other hother => by
      rw [hlookup] at hother
      cases hother
      rw [hrunning]
      decide
    have hfinal : task'.status ≠ .queued ∧ task'.status ≠ .running := by
      rw [hbecomes.status]
      cases result <;> simp [finishedStatus]
    refine h.insert rfl (hbecomes.taskId.trans (h.keyed _ _ hlookup)) h.nodup (fun _ _ => Iff.rfl) ?_
      ?_ ?_ (fun hstatus => absurd hstatus hfinal.2)
    · simp [hpending, hfinal.1]
    · intro other hne
      exact FinMap.lookup_delete_of_ne hne
    · intro attempt
      simp [hfinal.2]
  | workerLost taskId result running hrun hlost =>
    -- every worker belongs to a running task
    obtain ⟨task, htask, hstatus, hattempt⟩ :=
      (h.running taskId running.runningAttempt).mp ⟨running, hrun, rfl⟩
    exact absurd ⟨hstatus, hattempt⟩ (hlost task htask)

end Scheduled

/-! ### What a pass starts -/

section Launching

variable {now : TaskId → UTCTime} {inputs : FinMap TaskId DurableTask} {launched launched' : Launched}

/-- One task is launched; the others are left alone. -/
theorem of_launch (hlibrary : library.Lawful) {taskId : TaskId} {task : DurableTask}
    (hlookup : launched.tasks.lookup taskId = some task)
    (h : launch library config now inputs launched taskId = .ok launched') :
    ∃ task' run, launched'.tasks = launched.tasks.insert taskId task' ∧
      launched'.running = launched.running.insert taskId run ∧
      Becomes task task' .running task.attempt ∧ run.runningAttempt = task.attempt := by
  rw [launch, hlookup] at h
  simp only [bind_eq_ok] at h
  obtain ⟨⟨host, persisted⟩, hpersisted, h⟩ := h
  obtain rfl := of_persistBounded hlibrary hpersisted
  cases h
  exact ⟨_, _, rfl, rfl, becomes_boundTaskLog rfl rfl, rfl⟩

/-- Tasks are launched one after the other; the others are left alone. -/
structure LaunchedFrom (launched launched' : Launched) (taskIds : List TaskId) : Prop where
  others : ∀ other, other ∉ taskIds →
    launched'.tasks.lookup other = launched.tasks.lookup other ∧
      launched'.running.lookup other = launched.running.lookup other
  started : ∀ taskId ∈ taskIds, ∀ task, launched.tasks.lookup taskId = some task →
    (∃ task', launched'.tasks.lookup taskId = some task' ∧
      Becomes task task' .running task.attempt) ∧
    ∃ run, launched'.running.lookup taskId = some run ∧ run.runningAttempt = task.attempt
  length : (∀ taskId ∈ taskIds, launched.running.lookup taskId = none) →
    launched'.running.keys.length = launched.running.keys.length + taskIds.length

theorem of_launches (hlibrary : library.Lawful) {taskIds : List TaskId} (hnodup : taskIds.Nodup)
    (hlookup : ∀ taskId ∈ taskIds, (launched.tasks.lookup taskId).isSome)
    (h : taskIds.foldlM (launch library config now inputs) launched = .ok launched') :
    LaunchedFrom launched launched' taskIds := by
  induction taskIds generalizing launched with
  | nil =>
    cases h
    exact ⟨fun _ _ => ⟨rfl, rfl⟩, fun _ hmem => by simp at hmem, fun _ => rfl⟩
  | cons first taskIds ih =>
    obtain ⟨hfirst, hnodup⟩ := nodup_cons.mp hnodup
    obtain ⟨task, htask⟩ := isSome_iff_exists.mp (hlookup first mem_cons_self)
    rw [foldlM_cons, bind_eq_ok] at h
    obtain ⟨launched₁, hlaunch, h⟩ := h
    obtain ⟨task', run, htasks, hruns, hbecomes, hattempt⟩ := of_launch hlibrary htask hlaunch
    have hne : ∀ taskId ∈ taskIds, taskId ≠ first := fun taskId hmem heq => hfirst (heq ▸ hmem)
    have hrest : LaunchedFrom launched₁ launched' taskIds := by
      refine ih hnodup (fun taskId hmem => ?_) h
      rw [htasks, lookup_insert_of_ne (hne taskId hmem)]
      exact hlookup taskId (mem_cons_of_mem _ hmem)
    constructor
    · intro other hother
      rw [mem_cons, not_or] at hother
      obtain ⟨hsame, hrun⟩ := hrest.others other hother.2
      rw [hsame, hrun, htasks, hruns, lookup_insert_of_ne hother.1,
        lookup_insert_of_ne hother.1]
      exact ⟨rfl, rfl⟩
    · intro taskId hmem other hother
      rcases mem_cons.mp hmem with rfl | hmem
      · rw [htask, some.injEq] at hother
        subst hother
        obtain ⟨hsame, hrun⟩ := hrest.others taskId hfirst
        rw [hsame, hrun, htasks, hruns, lookup_insert_self, lookup_insert_self]
        exact ⟨⟨task', rfl, hbecomes⟩, run, rfl, hattempt⟩
      · refine hrest.started taskId hmem other ?_
        rw [htasks, lookup_insert_of_ne (hne taskId hmem)]
        exact hother
    · intro hfree
      have hkeys : launched₁.running.keys.length = launched.running.keys.length + 1 := by
        rw [hruns]
        exact length_keys_insert (hfree first mem_cons_self)
      have hrestkeys := hrest.length fun taskId hmem => by
        rw [hruns, lookup_insert_of_ne (hne taskId hmem)]
        exact hfree taskId (mem_cons_of_mem _ hmem)
      rw [hrestkeys, hkeys, length_cons]
      omega

end Launching

section Passes

variable {state state' : AdapterState} {host host' : SchedulerHost} {now : TaskId → UTCTime}

theorem mem_candidates {candidate : Candidate TaskId} (h : candidate ∈ candidates state) :
    candidate.2 ∈ state.adapterPending ∧
      ∃ task, state.adapterTasks.lookup candidate.2 = some task ∧
        candidate.1.identitySessionId = task.sessionId := by
  obtain ⟨taskId, hpending, hcandidate⟩ := mem_filterMap.mp h
  obtain ⟨task, htask, rfl⟩ := map_eq_some_iff.mp hcandidate
  exact ⟨hpending, task, htask, rfl⟩

/-- Every task in the queue is a candidate. -/
theorem Scheduled.map_candidates (h : Scheduled state) :
    (candidates state).map Prod.snd = state.adapterPending := by
  have hall : ∀ taskId ∈ state.adapterPending, (state.adapterTasks.lookup taskId).isSome := by
    intro taskId hmem
    obtain ⟨task, htask, -⟩ := (h.pending taskId).mp hmem
    rw [htask]
    rfl
  rw [candidates]
  generalize state.adapterPending = pending at hall
  induction pending with
  | nil => rfl
  | cons taskId pending ih =>
    obtain ⟨task, htask⟩ := isSome_iff_exists.mp (hall taskId mem_cons_self)
    have hrest := ih fun other hmem => hall other (mem_cons_of_mem _ hmem)
    rw [filterMap_cons, htask]
    simp only [map_some, map_cons]
    rw [hrest]

theorem mem_activeSessions (h : Scheduled state) {sessionId : Text} :
    sessionId ∈ activeSessions state ↔ ∃ taskId task,
      state.adapterTasks.lookup taskId = some task ∧ task.status = .running ∧
        task.sessionId = some sessionId := by
  rw [activeSessions, List.mem_toFinset, mem_filterMap]
  constructor
  · rintro ⟨taskId, hkey, hsession⟩
    obtain ⟨run, hrun⟩ := isSome_iff_exists.mp ((state.adapterRunning.mem_keys taskId).mp hkey)
    obtain ⟨task, htask, hstatus, -⟩ := (h.running taskId run.runningAttempt).mp ⟨run, hrun, rfl⟩
    rw [htask] at hsession
    exact ⟨taskId, task, htask, hstatus, hsession⟩
  · rintro ⟨taskId, task, htask, hstatus, hsession⟩
    obtain ⟨run, hrun, -⟩ := (h.running taskId task.attempt).mpr ⟨task, htask, hstatus, rfl⟩
    refine ⟨taskId, (state.adapterRunning.mem_keys taskId).mpr ?_, ?_⟩
    · rw [hrun]
      rfl
    · rw [htask]
      exact hsession

/-- The tasks that a pass selects, and those that stay in the queue. -/
def selected (state : AdapterState) : List TaskId :=
  (pick (capacity state).toNat (activeSessions state) (candidates state)).1.map Prod.snd

def staying (state : AdapterState) : List TaskId :=
  (pick (capacity state).toNat (activeSessions state) (candidates state)).2.map Prod.snd

/-- The session of a task that is selected is not that of a running task. -/
theorem selected_session {taskId : TaskId}
    (hselected : taskId ∈ selected state) {task : DurableTask}
    (htask : state.adapterTasks.lookup taskId = some task) {sessionId : Text}
    (hsession : task.sessionId = some sessionId) : sessionId ∉ activeSessions state := by
  obtain ⟨candidate, hcandidate, rfl⟩ := List.mem_map.mp hselected
  obtain ⟨-, other, hother, hidentity⟩ :=
    mem_candidates ((pick_selected_sublist _ _ _).subset hcandidate)
  rw [htask, some.injEq] at hother
  subst hother
  intro hmem
  exact not_blocked_of_selected hcandidate ⟨sessionId, hmem, hidentity.trans hsession⟩

/-- Two tasks that are selected have different sessions. -/
theorem selected_sessions {taskId taskId' : TaskId}
    (hselected : taskId ∈ selected state) (hselected' : taskId' ∈ selected state)
    {task task' : DurableTask} (htask : state.adapterTasks.lookup taskId = some task)
    (htask' : state.adapterTasks.lookup taskId' = some task') {sessionId : Text}
    (hsession : task.sessionId = some sessionId) (hsession' : task'.sessionId = some sessionId) :
    taskId = taskId' := by
  obtain ⟨candidate, hcandidate, rfl⟩ := List.mem_map.mp hselected
  obtain ⟨candidate', hcandidate', rfl⟩ := List.mem_map.mp hselected'
  obtain ⟨-, other, hother, hidentity⟩ :=
    mem_candidates ((pick_selected_sublist _ _ _).subset hcandidate)
  obtain ⟨-, other', hother', hidentity'⟩ :=
    mem_candidates ((pick_selected_sublist _ _ _).subset hcandidate')
  rw [htask, some.injEq] at hother
  rw [htask', some.injEq] at hother'
  subst hother hother'
  by_contra hne
  have hpairwise := pairwise_selected (capacity state).toNat (activeSessions state) (candidates state)
  have hsymm : Std.Symm fun a b : Candidate TaskId =>
      ∀ sessionId, a.1.identitySessionId = some sessionId →
        b.1.identitySessionId ≠ some sessionId :=
    ⟨fun a b hab s hb ha => hab s ha hb⟩
  exact hpairwise.forall hcandidate hcandidate' (fun heq => hne (congrArg Prod.snd heq)) sessionId
    (hidentity.trans hsession) (hidentity'.trans hsession')

section

variable (h : Scheduled state)
include h

theorem Scheduled.selected_perm :
    (selected state ++ staying state).Perm state.adapterPending := by
  have hperm := (pick_perm (capacity state).toNat (activeSessions state) (candidates state)).map
    Prod.snd
  rw [map_append, h.map_candidates] at hperm
  exact hperm

theorem Scheduled.staying_sublist :
    (staying state).Sublist state.adapterPending := by
  have hsub := (pick_remaining_sublist (capacity state).toNat (activeSessions state)
    (candidates state)).map Prod.snd
  rw [h.map_candidates] at hsub
  exact hsub

theorem Scheduled.mem_staying {taskId : TaskId} :
    taskId ∈ staying state ↔ taskId ∈ state.adapterPending ∧ taskId ∉ selected state := by
  have hmem := h.selected_perm.mem_iff (a := taskId)
  have hnodup := h.selected_perm.nodup_iff.mpr h.nodup
  have hdisjoint := disjoint_of_nodup_append hnodup
  rw [mem_append] at hmem
  constructor
  · intro hstays
    exact ⟨hmem.mp (.inr hstays), fun hselected => hdisjoint hselected hstays⟩
  · rintro ⟨hpending, hnot⟩
    exact (hmem.mpr hpending).resolve_left hnot

/-- A task that is selected is queued, and has no worker. -/
theorem Scheduled.of_selected {taskId : TaskId}
    (hselected : taskId ∈ selected state) :
    (∃ task, state.adapterTasks.lookup taskId = some task ∧ task.status = .queued) ∧
      state.adapterRunning.lookup taskId = none := by
  have hpending := h.selected_perm.mem_iff.mp (mem_append_left _ hselected)
  obtain ⟨task, htask, hstatus⟩ := (h.pending taskId).mp hpending
  refine ⟨⟨task, htask, hstatus⟩, h.not_running fun other hother => ?_⟩
  rw [htask] at hother
  cases hother
  rw [hstatus]
  decide

/-- What a pass does where the parts of the state agree. -/
theorem Scheduled.of_startRunnable (hlibrary : library.Lawful)
    (hstart : startRunnable library config now host state = .ok (host', state')) :
    LaunchedFrom ⟨host, state.adapterTasks, state.adapterRunning⟩
        ⟨host', state'.adapterTasks, state'.adapterRunning⟩ (selected state) ∧
      state' = { state with
        adapterPending := staying state
        adapterRunning := state'.adapterRunning
        adapterTasks := state'.adapterTasks } := by
  simp only [startRunnable, selectRunnableTasks_eq_pick, bind_eq_ok] at hstart
  obtain ⟨launched, hlaunched, hstate⟩ := hstart
  cases hstate
  refine ⟨?_, rfl⟩
  have hnodup := (nodup_append.mp (h.selected_perm.nodup_iff.mpr h.nodup)).1
  refine of_launches hlibrary hnodup (fun taskId hmem => ?_) hlaunched
  obtain ⟨⟨task, htask, -⟩, -⟩ := h.of_selected hmem
  change (state.adapterTasks.lookup taskId).isSome = true
  rw [htask]
  rfl

/-- **The parts of the state agree after every pass.** -/
theorem Scheduled.start (hlibrary : library.Lawful)
    (hstart : startRunnable library config now host state = .ok (host', state')) :
    Scheduled state' := by
  obtain ⟨hlaunched, hstate⟩ := h.of_startRunnable hlibrary hstart
  have hpending : state'.adapterPending = staying state := by rw [hstate]
  -- the task of an id after the pass, and the one before it
  have hcases : ∀ taskId task', state'.adapterTasks.lookup taskId = some task' →
      (taskId ∈ selected state ∧ ∃ task, state.adapterTasks.lookup taskId = some task ∧
        task.status = .queued ∧ Becomes task task' .running task.attempt ∧
        ∃ run, state'.adapterRunning.lookup taskId = some run ∧ run.runningAttempt = task.attempt) ∨
      taskId ∉ selected state ∧ state.adapterTasks.lookup taskId = some task' ∧
        state'.adapterRunning.lookup taskId = state.adapterRunning.lookup taskId := by
    intro taskId task' hlookup
    by_cases hselected : taskId ∈ selected state
    · obtain ⟨⟨task, htask, hstatus⟩, -⟩ := h.of_selected hselected
      obtain ⟨⟨other, hother, hbecomes⟩, hrun⟩ := hlaunched.started taskId hselected task htask
      rw [hlookup, some.injEq] at hother
      subst hother
      exact .inl ⟨hselected, task, htask, hstatus, hbecomes, hrun⟩
    · obtain ⟨hsame, hrun⟩ := hlaunched.others taskId hselected
      exact .inr ⟨hselected, hsame ▸ hlookup, hrun⟩
  refine ⟨?_, ?_, ?_, ?_, ?_⟩
  · intro taskId task' hlookup
    rcases hcases taskId task' hlookup with ⟨-, task, htask, -, hbecomes, -⟩ | ⟨-, htask, -⟩
    · exact hbecomes.taskId.trans (h.keyed taskId task htask)
    · exact h.keyed taskId task' htask
  · rw [hpending]
    exact h.nodup.sublist h.staying_sublist
  · intro taskId
    rw [hpending, h.mem_staying, h.pending]
    constructor
    · rintro ⟨⟨task, htask, hstatus⟩, hnot⟩
      exact ⟨task, (hlaunched.others taskId hnot).1.trans htask, hstatus⟩
    · rintro ⟨task', hlookup, hstatus⟩
      rcases hcases taskId task' hlookup with ⟨-, task, -, -, hbecomes, -⟩ | ⟨hnot, htask, -⟩
      · rw [hbecomes.status] at hstatus
        cases hstatus
      · exact ⟨⟨task', htask, hstatus⟩, hnot⟩
  · intro taskId attempt
    by_cases hselected : taskId ∈ selected state
    · obtain ⟨⟨task, htask, hstatus⟩, -⟩ := h.of_selected hselected
      obtain ⟨⟨task', htask', hbecomes⟩, run, hrun, hattempt⟩ :=
        hlaunched.started taskId hselected task htask
      have hrun : state'.adapterRunning.lookup taskId = some run := hrun
      have htask' : state'.adapterTasks.lookup taskId = some task' := htask'
      simp [hrun, htask', hbecomes.status, hbecomes.attempt, hattempt]
    · obtain ⟨hsame, hrun⟩ := hlaunched.others taskId hselected
      have hsame : state'.adapterTasks.lookup taskId = state.adapterTasks.lookup taskId := hsame
      have hrun : state'.adapterRunning.lookup taskId = state.adapterRunning.lookup taskId := hrun
      rw [hsame, hrun]
      exact h.running taskId attempt
  · intro taskId taskId' task task' sessionId hlookup hstatus hsession hlookup' hstatus' hsession'
    rcases hcases taskId task hlookup with ⟨hselected, old, hold, -, hbecomes, -⟩ | ⟨-, hold, -⟩
    · rw [hbecomes.sessionId] at hsession
      rcases hcases taskId' task' hlookup' with
        ⟨hselected', old', hold', -, hbecomes', -⟩ | ⟨-, hold', -⟩
      · rw [hbecomes'.sessionId] at hsession'
        exact selected_sessions hselected hselected' hold hold' hsession hsession'
      · exact absurd ((mem_activeSessions h).mpr ⟨taskId', task', hold', hstatus', hsession'⟩)
          (selected_session hselected hold hsession)
    · rcases hcases taskId' task' hlookup' with
        ⟨hselected', old', hold', -, hbecomes', -⟩ | ⟨-, hold', -⟩
      · rw [hbecomes'.sessionId] at hsession'
        exact absurd ((mem_activeSessions h).mpr ⟨taskId, task, hold, hstatus, hsession⟩)
          (selected_session hselected' hold' hsession')
      · exact h.sessions taskId taskId' task task' sessionId hold hstatus hsession hold' hstatus'
          hsession'

/-- Room and sessions after a pass. -/
theorem Scheduled.settled (hlibrary : library.Lawful)
    (hstart : startRunnable library config now host state = .ok (host', state')) :
    pick (capacity state').toNat (activeSessions state') (candidates state') =
      ([], candidates state') := by
  obtain ⟨hlaunched, hstate⟩ := h.of_startRunnable hlibrary hstart
  have hpending : state'.adapterPending = staying state := by rw [hstate]
  have hlimit : state'.adapterLimit = state.adapterLimit := by rw [hstate]
  have h' := h.start hlibrary hstart
  refine pick_eq_nil ?_
  rcases full_or_blocked (capacity state).toNat (activeSessions state) (candidates state) with
    hfull | hblocked
  · have hkeys : state'.adapterRunning.keys.length =
        state.adapterRunning.keys.length + (selected state).length :=
      hlaunched.length fun taskId hmem => (h.of_selected hmem).2
    have hselected : (selected state).length = (capacity state).toNat := by
      rw [selected, length_map, hfull]
    left
    simp only [capacity] at hselected ⊢
    omega
  · right
    intro candidate hcandidate
    obtain ⟨hmem, task, htask, hidentity⟩ := mem_candidates hcandidate
    rw [hpending, staying, List.mem_map] at hmem
    obtain ⟨old, hold, heq⟩ := hmem
    obtain ⟨-, oldTask, holdTask, holdIdentity⟩ :=
      mem_candidates ((pick_remaining_sublist _ _ _).subset hold)
    -- the task of the candidate is as it was
    have hstays : candidate.2 ∈ staying state := heq ▸ List.mem_map_of_mem hold
    have hsame := (hlaunched.others candidate.2 (h.mem_staying.mp hstays).2).1
    rw [heq] at holdTask
    have hsameTask : task = oldTask := by
      have hlookup := htask.symm.trans (hsame.trans holdTask)
      exact some.inj hlookup
    obtain ⟨sessionId, hbusy, hsession⟩ := hblocked old hold
    refine ⟨sessionId, ?_, by rw [hidentity, hsameTask, ← holdIdentity, hsession]⟩
    rw [mem_activeSessions h']
    rcases mem_busyAfter.mp hbusy with hactive | ⟨other, hother, hotherSession⟩
    · obtain ⟨taskId, run, hrun, hstatus, hrunSession⟩ := (mem_activeSessions h).mp hactive
      have hnot : taskId ∉ selected state := by
        intro hselected
        obtain ⟨⟨queued, hqueued, hqueuedStatus⟩, -⟩ := h.of_selected hselected
        rw [hrun, some.injEq] at hqueued
        subst hqueued
        rw [hstatus] at hqueuedStatus
        cases hqueuedStatus
      exact ⟨taskId, run, (hlaunched.others taskId hnot).1.trans hrun, hstatus, hrunSession⟩
    · obtain ⟨-, run, hrun, hrunIdentity⟩ :=
        mem_candidates ((pick_selected_sublist _ _ _).subset hother)
      obtain ⟨⟨run', hrun', hbecomes⟩, -⟩ :=
        hlaunched.started other.2 (List.mem_map_of_mem hother) run hrun
      refine ⟨other.2, run', hrun', hbecomes.status, ?_⟩
      rw [hbecomes.sessionId, ← hrunIdentity, hotherSession]

/-- A pass that selects nothing changes nothing. -/
theorem Scheduled.startRunnable_eq
    (hpick : pick (capacity state).toNat (activeSessions state) (candidates state) =
      ([], candidates state)) (now : TaskId → UTCTime) (host : SchedulerHost) :
    startRunnable library config now host state = .ok (host, state) := by
  rw [startRunnable, selectRunnableTasks_eq_pick, hpick]
  change Except.ok (host, { state with adapterPending := (candidates state).map Prod.snd }) = _
  rw [h.map_candidates]

/-- A task that is selected was put into the queue before the others of its session. -/
theorem Scheduled.first_of_session {enqueuedAt : TaskId → ℕ}
    (horder : state.adapterPending.Pairwise fun a b => enqueuedAt a < enqueuedAt b)
    {taskId other : TaskId} (hselected : taskId ∈ selected state)
    (hother : other ∈ state.adapterPending) (hbefore : enqueuedAt other < enqueuedAt taskId)
    {task otherTask : DurableTask} (htask : state.adapterTasks.lookup taskId = some task)
    (hotherTask : state.adapterTasks.lookup other = some otherTask) {sessionId : Text}
    (hsession : task.sessionId = some sessionId) : otherTask.sessionId ≠ some sessionId := by
  obtain ⟨candidate, hcandidate, rfl⟩ := List.mem_map.mp hselected
  have hmem := (pick_selected_sublist _ _ _).subset hcandidate
  obtain ⟨-, own, hown, hidentity⟩ := mem_candidates hmem
  rw [htask, some.injEq] at hown
  subst hown
  have hsplit : ∃ otherCandidate ∈ candidates state, otherCandidate.2 = other := by
    rw [← h.map_candidates, List.mem_map] at hother
    exact hother
  obtain ⟨otherCandidate, hotherMem, rfl⟩ := hsplit
  obtain ⟨-, own', hown', hidentity'⟩ := mem_candidates hotherMem
  rw [hotherTask, some.injEq] at hown'
  subst hown'
  have hnodup : (candidates state).Nodup := by
    refine List.Nodup.of_map Prod.snd ?_
    rw [h.map_candidates]
    exact h.nodup
  rw [← h.map_candidates, pairwise_map] at horder
  obtain ⟨before, after, heq⟩ := append_of_mem hmem
  rw [heq] at hotherMem horder
  -- what follows the task in the queue was put there later
  rcases mem_append.mp hotherMem with hin | hin
  · have hdifferent := not_same_session_before heq hnodup hcandidate hin (hidentity.trans hsession)
    rwa [hidentity'] at hdifferent
  · rcases mem_cons.mp hin with rfl | hin
    · omega
    · have hlater := (pairwise_cons.mp (pairwise_append.mp horder).2.1).1 _ hin
      omega

end

end Passes

/-! ### The loop -/

/-- What holds of the loop between two steps. -/
structure SchedulerInvariant (library : DaemonLibrary) (config : JournalConfig)
    (w : SchedulerWorld) : Prop where
  scheduled : Scheduled w.state
  order : w.state.adapterPending.Pairwise fun a b => w.enqueuedAt a < w.enqueuedAt b
  past : ∀ taskId ∈ w.state.adapterPending, w.enqueuedAt taskId < w.clock
  settled : w.phase = .waiting → ∀ now host,
    startRunnable library config now host w.state = .ok (host, w.state)

/-- A message of an attempt that is not the current one of its task. -/
def AdapterMessage.Stale (state : AdapterState) : AdapterMessage → Prop
  | .execute _ _ _ => False
  | .taskLogged taskId attempt _ =>
    ∀ task, state.adapterTasks.lookup taskId = some task → task.attempt ≠ attempt
  | .taskLogTruncated taskId attempt =>
    ∀ task, state.adapterTasks.lookup taskId = some task → task.attempt ≠ attempt
  | .taskFinished taskId attempt _ =>
    ∀ task, state.adapterTasks.lookup taskId = some task → task.attempt ≠ attempt

/-- What a step starts, keeps and leaves alone. -/
structure StepFacts (library : DaemonLibrary) (config : JournalConfig) (w : SchedulerWorld)
    (event : SchedulerEvent) (w' : SchedulerWorld) : Prop where
  /-- A task starts while there is room for it, and once the tasks of its session that were put into
  the queue before it have left it. -/
  starts : ∀ taskId, w.state.adapterRunning.lookup taskId = none →
    (w'.state.adapterRunning.lookup taskId).isSome →
    (w'.state.adapterRunning.keys.length : ℤ) ≤ w.state.adapterLimit ∧
      ∀ other ∈ w.state.adapterPending, w.enqueuedAt other < w.enqueuedAt taskId →
      ∀ task otherTask sessionId, w.state.adapterTasks.lookup taskId = some task →
        w.state.adapterTasks.lookup other = some otherTask → task.sessionId = some sessionId →
        otherTask.sessionId ≠ some sessionId
  /-- The status of a completed task stays. -/
  completed : ∀ taskId task, w.state.adapterTasks.lookup taskId = some task →
    task.status = .completed →
    ∃ task', w'.state.adapterTasks.lookup taskId = some task' ∧ task'.status = .completed
  /-- That of another task that has ended is only changed by a retry. -/
  ended : ∀ taskId task, w.state.adapterTasks.lookup taskId = some task →
    task.status = .failed ∨ task.status = .cancelled ∨ task.status = .interrupted →
    ∃ task', w'.state.adapterTasks.lookup taskId = some task' ∧
      (task'.status = task.status ∨
        (∃ now reply, event = .message now (.execute (.retry taskId) reply true)) ∧
          task'.status = .queued ∧ task'.attempt = task.attempt + 1)
  /-- A message of another attempt changes nothing, and nothing is started after it. -/
  stale : ∀ now message, event = .message now message → message.Stale w.state →
    (w'.state = w.state ∧ w'.host = w.host) ∧
      ∀ now' w'', step library config w' (.start now') = some w'' →
        w''.state = w.state ∧ w''.host = w.host

section Steps

variable {w w' : SchedulerWorld} {event : SchedulerEvent}

/-- The queue keeps its order where tasks leave it and one is put at its end. -/
theorem order_goOn (phase : Phase) (host : SchedulerHost) {state : AdapterState}
    (hpending : state.adapterPending.Sublist w.state.adapterPending ∨
      ∃ taskId, taskId ∉ w.state.adapterPending ∧
        state.adapterPending = w.state.adapterPending ++ [taskId])
    (horder : w.state.adapterPending.Pairwise fun a b => w.enqueuedAt a < w.enqueuedAt b)
    (hpast : ∀ taskId ∈ w.state.adapterPending, w.enqueuedAt taskId < w.clock) :
    (state.adapterPending.Pairwise fun a b =>
        (w.goOn phase (.ok (host, state))).enqueuedAt a <
          (w.goOn phase (.ok (host, state))).enqueuedAt b) ∧
      ∀ taskId ∈ state.adapterPending,
        (w.goOn phase (.ok (host, state))).enqueuedAt taskId <
          (w.goOn phase (.ok (host, state))).clock := by
  have hold : ∀ taskId ∈ w.state.adapterPending,
      (w.goOn phase (.ok (host, state))).enqueuedAt taskId = w.enqueuedAt taskId := by
    intro taskId hmem
    exact if_neg fun hnew => hnew.2 hmem
  have hclock : (w.goOn phase (.ok (host, state))).clock = w.clock + 1 := rfl
  rcases hpending with hsub | ⟨taskId, hnew, happend⟩
  · constructor
    · refine (horder.sublist hsub).imp_of_mem fun {a b} ha hb hlt => ?_
      rw [hold a (hsub.subset ha), hold b (hsub.subset hb)]
      exact hlt
    · intro other hother
      have hlt := hpast other (hsub.subset hother)
      rw [hold other (hsub.subset hother), hclock]
      omega
  · have hstamp : (w.goOn phase (.ok (host, state))).enqueuedAt taskId = w.clock := by
      refine if_pos ⟨?_, hnew⟩
      rw [happend]
      exact mem_append_right _ mem_cons_self
    rw [happend]
    constructor
    · refine pairwise_append.mpr ⟨?_, pairwise_singleton _ _, ?_⟩
      · refine horder.imp_of_mem fun {a b} ha hb hlt => ?_
        rw [hold a ha, hold b hb]
        exact hlt
      · intro a ha b hb
        rw [mem_singleton] at hb
        subst hb
        rw [hold a ha, hstamp]
        exact hpast a ha
    · intro other hother
      rw [hclock]
      rcases mem_append.mp hother with hmem | hmem
      · have hlt := hpast other hmem
        rw [hold other hmem]
        omega
      · rw [mem_singleton] at hmem
        subst hmem
        rw [hstamp]
        omega

/-- The loop goes on with a state whose parts agree, or ends. -/
theorem SchedulerInvariant.step (h : SchedulerInvariant library config w)
    (hlibrary : library.Lawful) (hstep : step library config w event = some w') :
    SchedulerInvariant library config w' := by
  cases event with
  | start now =>
    rw [Daemon.step] at hstep
    split at hstep
    · cases hstep
      rcases hresult : startRunnable library config now w.host w.state with err | ⟨host, state⟩
      · exact ⟨h.scheduled, h.order, h.past, fun hphase => by cases hphase⟩
      · obtain ⟨-, hstate⟩ := h.scheduled.of_startRunnable hlibrary hresult
        have hsub : state.adapterPending.Sublist w.state.adapterPending := by
          rw [hstate]
          exact h.scheduled.staying_sublist
        obtain ⟨horder, hpast⟩ :=
          order_goOn .waiting host (.inl hsub) h.order h.past
        exact ⟨h.scheduled.start hlibrary hresult, horder, hpast, fun _ now' host' =>
          (h.scheduled.start hlibrary hresult).startRunnable_eq
            (h.scheduled.settled hlibrary hresult) now' host'⟩
    · cases hstep
  | message now received =>
    rw [Daemon.step] at hstep
    split at hstep
    · cases hstep
      rcases hresult : handleMessage library config now w.host w.state received with
        err | ⟨host, state⟩
      · exact ⟨h.scheduled, h.order, h.past, fun hphase => by cases hphase⟩
      · have hchange := change_of_handleMessage hlibrary hresult
        obtain ⟨horder, hpast⟩ := order_goOn .starting host
          (pending_of_change h.scheduled hchange) h.order h.past
        exact ⟨h.scheduled.change hchange, horder, hpast, fun hphase => by cases hphase⟩
    · cases hstep

variable {message : AdapterMessage}

/-- A message of another attempt changes nothing. -/
theorem Scheduled.stale {state : AdapterState} (h : Scheduled state)
    (hstale : message.Stale state) (now : UTCTime) (host : SchedulerHost) :
    handleMessage library config now host state message = .ok (host, state) := by
  have happend : ∀ taskId attempt line,
      (∀ task, state.adapterTasks.lookup taskId = some task → task.attempt ≠ attempt) →
      appendLog library config now host state taskId attempt line = .ok (host, state) := by
    intro taskId attempt line hother
    unfold appendLog
    split
    · rfl
    · next task htask => exact if_neg fun hcurrent => hother task htask hcurrent.2
  cases message with
  | execute command reply active => cases hstale
  | taskLogged taskId attempt line => exact happend taskId attempt line hstale
  | taskLogTruncated taskId attempt => exact happend taskId attempt truncatedLogLine hstale
  | taskFinished taskId attempt result =>
    change finishTask library config now host state taskId attempt result = _
    unfold finishTask
    split
    · rfl
    · next running hrun =>
      refine if_neg fun hattempt => ?_
      -- the worker that runs is that of the current attempt
      obtain ⟨task, htask, -, hcurrent⟩ := (h.running taskId attempt).mp ⟨running, hrun, hattempt⟩
      exact hstale task htask hcurrent

/-- The status of a task that has ended is only changed by a retry. -/
theorem ended_of_change {state state' : AdapterState}
    (hchange : Change state message state') {taskId : TaskId} {task : DurableTask}
    (htask : state.adapterTasks.lookup taskId = some task) (hended : isActive task = false) :
    ∃ task', state'.adapterTasks.lookup taskId = some task' ∧
      (task'.status = task.status ∨
        (∃ reply, message = .execute (.retry taskId) reply true) ∧ task.status ≠ .completed ∧
          task'.status = .queued ∧ task'.attempt = task.attempt + 1) := by
  have hother : ∀ other task', other ≠ taskId →
      (state.adapterTasks.insert other task').lookup taskId = some task := by
    intro other task' hne
    rw [lookup_insert_of_ne (Ne.symm hne)]
    exact htask
  have hrunning : task.status ≠ .running := (not_active hended).2
  cases hchange with
  | nothing | limited limit reply => exact ⟨task, htask, .inl rfl⟩
  | submitted submitted reply new inputs hnew hid hstatus =>
    refine ⟨task, hother _ _ ?_, .inl rfl⟩
    rintro rfl
    rw [hnew] at htask
    cases htask
  | cancelled other reply old new hlookup hactive hbecomes =>
    refine ⟨task, hother _ _ ?_, .inl rfl⟩
    rintro rfl
    rw [hlookup, some.injEq] at htask
    subst htask
    rw [hactive] at hended
    cases hended
  | retried other reply old new hlookup hactive hcompleted hbecomes =>
    by_cases heq : other = taskId
    · subst heq
      rw [hlookup, some.injEq] at htask
      subst htask
      exact ⟨new, lookup_insert_self, .inr ⟨⟨reply, rfl⟩, hcompleted, hbecomes.status,
        hbecomes.attempt⟩⟩
    · exact ⟨task, hother _ _ heq, .inl rfl⟩
  | logged message other old new hmessage hlookup hold hbecomes
  | finished other result running old new inputs hrun hattempt hlookup hold hbecomes =>
    refine ⟨task, hother _ _ ?_, .inl rfl⟩
    rintro rfl
    rw [hlookup, some.injEq] at htask
    exact hrunning (htask ▸ hold)
  | workerLost => exact ⟨task, htask, .inl rfl⟩

/-- A message starts no task. -/
theorem running_of_change {state state' : AdapterState}
    (hchange : Change state message state') (taskId : TaskId)
    (hnone : state.adapterRunning.lookup taskId = none) :
    state'.adapterRunning.lookup taskId = none := by
  have hdelete : ∀ other, (state.adapterRunning.delete other).lookup taskId = none := by
    intro other
    rw [lookup_delete]
    split
    · rfl
    · exact hnone
  cases hchange with
  | nothing | limited limit reply | submitted => exact hnone
  | cancelled => exact hdelete _
  | retried | logged => exact hnone
  | finished | workerLost => exact hdelete _

theorem stepFacts_stopped {err : JournalError} {phase : Phase}
    {result : Outcome (SchedulerHost × AdapterState)} (hresult : result = .error err)
    (hevent : ∀ now message, event = .message now message → ¬ message.Stale w.state) :
    StepFacts library config w event (w.goOn phase result) := by
  subst hresult
  refine ⟨fun taskId hnone hsome => ?_, fun taskId task htask hstatus => ⟨task, htask, hstatus⟩,
    fun taskId task htask _ => ⟨task, htask, .inl rfl⟩, fun now message heq hstale =>
      absurd hstale (hevent now message heq)⟩
  have hnone' : (w.goOn phase (.error err)).state.adapterRunning.lookup taskId = none := hnone
  rw [hnone'] at hsome
  cases hsome

/-- What a pass starts and keeps. -/
theorem stepFacts_start (h : SchedulerInvariant library config w) (hlibrary : library.Lawful)
    {now : TaskId → UTCTime} :
    StepFacts library config w (.start now)
      (w.goOn .waiting (startRunnable library config now w.host w.state)) := by
  rcases hresult : startRunnable library config now w.host w.state with err | ⟨host, state⟩
  · exact stepFacts_stopped rfl fun now message heq => by cases heq
  · obtain ⟨hlaunched, hstate⟩ := h.scheduled.of_startRunnable hlibrary hresult
    have hkept : ∀ taskId task, w.state.adapterTasks.lookup taskId = some task →
        task.status ≠ .queued → state.adapterTasks.lookup taskId = some task := by
      intro taskId task htask hstatus
      refine (hlaunched.others taskId fun hselected => ?_).1.trans htask
      obtain ⟨⟨queued, hqueued, hqueuedStatus⟩, -⟩ := h.scheduled.of_selected hselected
      rw [htask, some.injEq] at hqueued
      subst hqueued
      exact hstatus hqueuedStatus
    refine ⟨fun taskId hnone hsome => ?_, fun taskId task htask hstatus => ?_,
      fun taskId task htask hended => ?_, fun now message heq => by cases heq⟩
    · have hselected : taskId ∈ selected w.state := by
        by_contra hnot
        have hsame := (hlaunched.others taskId hnot).2
        have hrun : (state.adapterRunning.lookup taskId).isSome := hsome
        rw [show state.adapterRunning.lookup taskId = _ from hsame.trans hnone] at hrun
        cases hrun
      constructor
      · have hkeys : state.adapterRunning.keys.length =
            w.state.adapterRunning.keys.length + (selected w.state).length :=
          hlaunched.length fun other hmem => (h.scheduled.of_selected hmem).2
        have hroom : (selected w.state).length ≤ (capacity w.state).toNat := by
          rw [selected, length_map]
          exact length_pick_le _ _ _
        have hpos := length_pos_of_mem hselected
        change (state.adapterRunning.keys.length : ℤ) ≤ w.state.adapterLimit
        rw [capacity] at hroom
        omega
      · intro other hother hbefore task otherTask sessionId htask hotherTask hsession
        exact h.scheduled.first_of_session h.order hselected hother hbefore htask hotherTask hsession
    · exact ⟨task, hkept taskId task htask (by rw [hstatus]; decide), hstatus⟩
    · refine ⟨task, hkept taskId task htask ?_, .inl rfl⟩
      rcases hended with hstatus | hstatus | hstatus <;>
      · rw [hstatus]
        decide

/-- What a message keeps and leaves alone. -/
theorem stepFacts_message (h : SchedulerInvariant library config w) (hlibrary : library.Lawful)
    (hphase : w.phase = .waiting) {now : UTCTime} {received : AdapterMessage} :
    StepFacts library config w (.message now received)
      (w.goOn .starting (handleMessage library config now w.host w.state received)) := by
  rcases hresult : handleMessage library config now w.host w.state received with
    err | ⟨host, state⟩
  · refine stepFacts_stopped rfl fun now' message heq hstale => ?_
    cases heq
    rw [h.scheduled.stale hstale] at hresult
    cases hresult
  · have hchange := change_of_handleMessage hlibrary hresult
    refine ⟨fun taskId hnone hsome => ?_, fun taskId task htask hstatus => ?_,
      fun taskId task htask hended => ?_, fun now' message heq hstale => ?_⟩
    · have hrun : (state.adapterRunning.lookup taskId).isSome := hsome
      rw [running_of_change hchange taskId hnone] at hrun
      cases hrun
    · obtain ⟨task', htask', hsame | ⟨-, hcompleted, -⟩⟩ := ended_of_change hchange htask (by
        simp [isActive, hstatus])
      · exact ⟨task', htask', hsame.trans hstatus⟩
      · exact absurd hstatus hcompleted
    · have hinactive : isActive task = false := by
        rcases hended with hstatus | hstatus | hstatus <;> simp [isActive, hstatus]
      obtain ⟨task', htask', hsame | ⟨⟨reply, heq⟩, -, hqueued, hattempt⟩⟩ :=
        ended_of_change hchange htask hinactive
      · exact ⟨task', htask', .inl hsame⟩
      · exact ⟨task', htask', .inr ⟨⟨now, reply, by rw [heq]⟩, hqueued, hattempt⟩⟩
    · cases heq
      rw [h.scheduled.stale hstale] at hresult
      cases hresult
      refine ⟨⟨rfl, rfl⟩, fun now'' w'' hstart => ?_⟩
      have hsettled : startRunnable library config now''
          (w.goOn .starting (.ok (w.host, w.state))).host
          (w.goOn .starting (.ok (w.host, w.state))).state = .ok (w.host, w.state) :=
        h.settled hphase now'' w.host
      cases hstart
      rw [hsettled]
      exact ⟨rfl, rfl⟩

end Steps

theorem schedulerInvariant_start {journal : Journal}
    (hsettled : ∀ taskId task, journal.state.durableSnapshot.tasks.lookup taskId = some task →
      isActive task = false ∧ task.taskId = taskId) (disk : Disk) :
    SchedulerInvariant library config (schedulerLoop journal disk) where
  scheduled :=
    { keyed := fun taskId task htask => (hsettled taskId task htask).2
      nodup := nodup_nil
      pending := fun taskId => by
        refine ⟨fun hmem => by simp [schedulerLoop] at hmem, ?_⟩
        rintro ⟨task, htask, hstatus⟩
        exact absurd hstatus (not_active (hsettled taskId task htask).1).1
      running := fun taskId attempt => by
        constructor
        · rintro ⟨run, hrun, -⟩
          simp [schedulerLoop] at hrun
        · rintro ⟨task, htask, hstatus, -⟩
          exact absurd hstatus (not_active (hsettled taskId task htask).1).2
      sessions := by
        intro taskId taskId' task task' sessionId htask hstatus
        exact absurd hstatus (not_active (hsettled taskId task htask).1).2 }
  order := List.Pairwise.nil
  past := fun taskId hmem => by simp [schedulerLoop] at hmem
  settled := fun hphase => by cases hphase

/-- **In every state of the loop of a journal that was opened the parts agree, the queue is in the
order in which tasks were put there, and every step starts, keeps and leaves alone what it should.**
The journal was opened from files whose snapshot has each task under its own id. -/
theorem scheduling_invariant (hlibrary : library.Lawful) {disk₀ disk : Disk} {journal : Journal}
    {now : UTCTime} (hkeyed : SnapshotKeyed library disk₀)
    (hopen : (openJournal library config now).complete succeed disk₀ = (disk, .ok journal))
    {w : SchedulerWorld}
    (hw : Machine.Reachable (step library config) (schedulerLoop journal disk) w) :
    Scheduled w.state ∧
      (w.state.adapterPending.Pairwise fun a b => w.enqueuedAt a < w.enqueuedAt b) ∧
      ∀ event w', step library config w event = some w' →
        StepFacts library config w event w' := by
  have hinvariant : SchedulerInvariant library config w :=
    hw.invariant (schedulerInvariant_start (fun taskId task htask =>
      openJournal_settled hkeyed hopen htask) disk)
      fun w event w' h _ hstep => h.step hlibrary hstep
  refine ⟨hinvariant.scheduled, hinvariant.order, fun event w' hstep => ?_⟩
  cases event with
  | start now =>
    rw [step] at hstep
    split at hstep
    · cases hstep
      exact stepFacts_start hinvariant hlibrary
    · cases hstep
  | message now received =>
    rw [step] at hstep
    split at hstep
    · next hphase =>
      cases hstep
      exact stepFacts_message hinvariant hlibrary hphase
    · cases hstep

def exampleTime : UTCTime := ⟨"2026-01-01T00:00:00Z".toList⟩

def exampleSubmit (taskId : String) : SubmitCommand where
  submittedId := taskId.toList
  submittedSessionId := some "session".toList
  submittedPrompt := "prompt".toList
  submittedWorkingDirectory := "/home/user".toList
  submittedProvider := none
  submittedModel := none
  submittedEffort := none
  submittedWorktree := false

/-- Two tasks of one session; the second starts when the first has finished. -/
def exampleMessages : List AdapterMessage :=
  [.execute (.submit (exampleSubmit "a")) 0 true, .execute (.submit (exampleSubmit "b")) 1 true,
    .taskFinished "a".toList 1 (.ok ()), .taskLogged "a".toList 1 "late".toList]

def exampleEvents : List SchedulerEvent :=
  .start (fun _ => exampleTime) :: exampleMessages.flatMap fun message =>
    [.message exampleTime message, .start fun _ => exampleTime]

theorem scheduling_invariant_in_exampleEvents :
    ∃ w, Machine.Reachable (step exampleLibrary exampleConfig)
        (schedulerLoop (newJournal ⟨emptySnapshot, []⟩) .empty) w ∧
      w.state.adapterRunning.keys = ["b".toList] ∧ Scheduled w.state ∧
      ∀ event w', step exampleLibrary exampleConfig w event = some w' →
        StepFacts exampleLibrary exampleConfig w event w' := by
  have hrun : (Machine.run (step exampleLibrary exampleConfig)
      (schedulerLoop (newJournal ⟨emptySnapshot, []⟩) .empty) exampleEvents).any
      (fun w : SchedulerWorld => decide (w.state.adapterRunning.keys = ["b".toList])) = true := by
    decide +kernel
  obtain ⟨w, hw, hkeys⟩ := Machine.exists_reachable_of_run hrun
  have hkeyed : SnapshotKeyed exampleLibrary .empty := fun bytes saved hbytes => by cases hbytes
  obtain ⟨hscheduled, -, hsteps⟩ :=
    scheduling_invariant exampleLibrary_lawful hkeyed (openJournal_empty exampleTime) hw
  exact ⟨w, hw, of_decide_eq_true hkeys, hscheduled, hsteps⟩

end HaskellAgent.Daemon
