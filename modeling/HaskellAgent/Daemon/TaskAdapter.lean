import HaskellAgent.Daemon.Journal
import HaskellAgent.Daemon.TaskScheduler

/-!
# The task scheduler of the daemon

One loop runs the commands of clients and takes the messages of workers, and before each of them it
starts the tasks that can run.  Every change of a task is stored in the journal first; an exception
of the journal ends the loop.

## Main definitions

* `AdapterState`, `SchedulerHost` — the state of the loop, and what it acts on.
* `executeCommand`, `handleMessage`, `startRunnable` — the loop.
* `SchedulerWorld`, `step` — the loop as a machine.
-/

namespace HaskellAgent.Daemon

open HaskellAgent.Wire

/-! ### Data -/

structure SubmitCommand where
  submittedId : TaskId
  submittedSessionId : Option Text
  submittedPrompt : Text
  submittedWorkingDirectory : Text
  submittedProvider : Option Text
  submittedModel : Option Text
  submittedEffort : Option Text
  submittedWorktree : Bool
deriving DecidableEq

inductive TaskCommand
  | submit (submitted : SubmitCommand)
  | cancel (taskId : TaskId)
  | list
  | setLimit (limit : ℤ)
  | approval (taskId : TaskId) (approvalId decision : Text)
  | retry (taskId : TaskId)
deriving DecidableEq

/-- A command with the number of its reply, and whether its client still waits. -/
inductive AdapterMessage
  | execute (command : TaskCommand) (reply : ℕ) (active : Bool)
  | taskLogged (taskId : TaskId) (attempt : Int64) (line : Text)
  | taskLogTruncated (taskId : TaskId) (attempt : Int64)
  | taskFinished (taskId : TaskId) (attempt : Int64) (result : Except Text Unit)

/-- The attempt that runs, and the number of its worker. -/
structure RunningTask where
  runningAttempt : Int64
  runningWorker : ℕ
deriving DecidableEq

structure AdapterState where
  adapterLimit : ℤ
  adapterPending : List TaskId
  adapterRunning : FinMap TaskId RunningTask
  adapterTasks : FinMap TaskId DurableTask
  adapterInputs : FinMap TaskId DurableTask
deriving DecidableEq

/-- The journal and its files, the registry of workers, the tasks that workers were launched with,
the workers that were cancelled, and the replies. -/
structure SchedulerHost where
  journal : Journal
  disk : Disk
  registry : FinMap TaskId RunningTask
  workers : List DurableTask
  cancelled : List ℕ
  replies : List (ℕ × Except Text Json)

def defaultTaskLimit : ℤ := 4

def redactedTaskDescription : Text := "[task input redacted]".toList

section Adapter

variable (library : DaemonLibrary) (config : JournalConfig)

/-! ### Storing -/

/-- What the loop does with an exception of the journal is nothing: it ends. -/
abbrev Outcome (α : Type) := Except JournalError α

/-- Store a task; what comes back is what the journal made of it. -/
def persistBounded (host : SchedulerHost) (task : DurableTask) :
    Outcome (SchedulerHost × DurableTask) :=
  match (persistTask library config host.journal task).complete succeed host.disk with
  | (_, _, .error err) => .error err
  | (disk, journal, .ok event) =>
    match durableTaskDecoder library event.payload with
    | none => .error (.ioException ("journal returned an invalid task event: ".toList ++
        library.valueErrorMessage event.payload))
    | some persisted => .ok ({ host with disk, journal }, persisted)

def recordEvent (host : SchedulerHost) (eventType : Text) (payload : Json) :
    Outcome SchedulerHost :=
  match (appendEvent library config host.journal eventType payload).complete succeed host.disk with
  | (_, _, .error err) => .error err
  | (disk, journal, .ok _) => .ok { host with disk, journal }

/-! ### Commands -/

def taskResult (state : String) (task : DurableTask) : Json :=
  objectWith [field "version" (integer 1), field "state" (string state), field "task" task.toJson]

def limitJson (limit : ℤ) : Json :=
  objectWith [field "version" (integer 1), field "limit" (integer limit)]

/-- The worker of a task is cancelled. -/
def SchedulerHost.cancelWorker (host : SchedulerHost) (running : Option RunningTask) :
    SchedulerHost :=
  match running with
  | none => host
  | some running => { host with cancelled := host.cancelled ++ [running.runningWorker] }

def SchedulerHost.forget (host : SchedulerHost) (taskId : TaskId) : SchedulerHost :=
  { host with registry := host.registry.delete taskId }

def executeSubmit (now : UTCTime) (host : SchedulerHost) (state : AdapterState)
    (submitted : SubmitCommand) :
    Outcome (SchedulerHost × AdapterState × Except Text Json) :=
  if (state.adapterTasks.lookup submitted.submittedId).isSome then
    .ok (host, state, .error "task id already exists".toList)
  else do
    let durableTask : DurableTask :=
      { taskId := submitted.submittedId
        sessionId := submitted.submittedSessionId
        status := .queued
        description := redactedTaskDescription
        workingDirectory := submitted.submittedWorkingDirectory
        provider := submitted.submittedProvider
        model := submitted.submittedModel
        effort := submitted.submittedEffort
        worktree := submitted.submittedWorktree
        attempt := 1
        updatedAt := now
        logTail := [] }
    let executionTask := { durableTask with description := submitted.submittedPrompt }
    let (host, persisted) ← persistBounded library config host durableTask
    let next : AdapterState :=
      { state with
        adapterPending := state.adapterPending ++ [persisted.taskId]
        adapterTasks := state.adapterTasks.insert persisted.taskId persisted
        adapterInputs := state.adapterInputs.insert persisted.taskId executionTask }
    pure (host, next, .ok (taskResult "submitted" persisted))

def executeCancel (now : UTCTime) (host : SchedulerHost) (state : AdapterState) (taskId : TaskId) :
    Outcome (SchedulerHost × AdapterState × Except Text Json) :=
  match state.adapterTasks.lookup taskId with
  | none => .ok (host, state, .error "task id is unknown".toList)
  | some task =>
    if isActive task = false then .ok (host, state, .error "task is not active".toList)
    else do
      let host := (host.cancelWorker (state.adapterRunning.lookup taskId)).forget taskId
      let updated := { task with status := .cancelled, updatedAt := now }
      let next : AdapterState :=
        { state with
          adapterPending := state.adapterPending.filter (· ≠ taskId)
          adapterRunning := state.adapterRunning.delete taskId
          adapterTasks := state.adapterTasks.insert taskId updated }
      let (host, persisted) ← persistBounded library config host updated
      pure (host, { next with adapterTasks := next.adapterTasks.insert taskId persisted },
        .ok (taskResult "cancelled" persisted))

def executeList (host : SchedulerHost) (state : AdapterState) :
    Outcome (SchedulerHost × AdapterState × Except Text Json) :=
  .ok (host, state, .ok (objectWith [field "version" (integer 1),
    field "tasks" (listOf DurableTask.toJson state.adapterTasks.elems)]))

def executeSetLimit (host : SchedulerHost) (state : AdapterState) (limit : ℤ) :
    Outcome (SchedulerHost × AdapterState × Except Text Json) := do
  let host ← recordEvent library config host "scheduler_limit_changed".toList (limitJson limit)
  pure (host, { state with adapterLimit := limit }, .ok (limitJson limit))

def executeApproval (host : SchedulerHost) (state : AdapterState) (taskId : TaskId) :
    Outcome (SchedulerHost × AdapterState × Except Text Json) :=
  match state.adapterTasks.lookup taskId with
  | some task =>
    if task.status = .running then
      .ok (host, state, .error ("interactive approval resolution is unsupported by ".toList ++
        "the daemon task adapter".toList))
    else .ok (host, state, .error "task is not running".toList)
  | none => .ok (host, state, .error "task is not running".toList)

def executeRetry (now : UTCTime) (host : SchedulerHost) (state : AdapterState) (taskId : TaskId) :
    Outcome (SchedulerHost × AdapterState × Except Text Json) :=
  match state.adapterTasks.lookup taskId with
  | none => .ok (host, state, .error "task id is unknown".toList)
  | some task =>
    if isActive task = true then .ok (host, state, .error "active tasks cannot be retried".toList)
    else if (state.adapterInputs.lookup taskId).isNone then
      .ok (host, state, .error (
        if task.status = .completed then
          "completed tasks cannot be retried; task input has been discarded".toList
        else
          "task input is unavailable after daemon restart; ".toList ++
            "submit a new task id".toList))
    else if task.status = .completed then
      .ok (host, state, .error "completed tasks cannot be retried".toList)
    else do
      let updated :=
        { task with
          status := .queued
          attempt := task.attempt + 1
          updatedAt := now
          logTail := [] }
      let next : AdapterState :=
        { state with
          adapterPending := state.adapterPending ++ [taskId]
          adapterTasks := state.adapterTasks.insert taskId updated }
      let (host, persisted) ← persistBounded library config host updated
      pure (host, { next with adapterTasks := next.adapterTasks.insert taskId persisted },
        .ok (taskResult "queued" persisted))

def executeCommand (now : UTCTime) (host : SchedulerHost) (state : AdapterState) :
    TaskCommand → Outcome (SchedulerHost × AdapterState × Except Text Json)
  | .submit submitted => executeSubmit library config now host state submitted
  | .cancel taskId => executeCancel library config now host state taskId
  | .list => executeList host state
  | .setLimit limit => executeSetLimit library config host state limit
  | .approval taskId _ _ => executeApproval host state taskId
  | .retry taskId => executeRetry library config now host state taskId

/-! ### Messages -/

def SchedulerHost.putReply (host : SchedulerHost) (reply : ℕ) (result : Except Text Json) :
    SchedulerHost :=
  { host with replies := host.replies ++ [(reply, result)] }

/-- A line is added to the log of the attempt that runs. -/
def appendLog (now : UTCTime) (host : SchedulerHost) (state : AdapterState) (taskId : TaskId)
    (attempt : Int64) (line : Text) : Outcome (SchedulerHost × AdapterState) :=
  match state.adapterTasks.lookup taskId with
  | none => .ok (host, state)
  | some task =>
    if task.status = .running ∧ task.attempt = attempt then do
      let updated := { task with updatedAt := now, logTail := task.logTail ++ [line] }
      let (host, persisted) ← persistBounded library config host updated
      pure (host, { state with adapterTasks := state.adapterTasks.insert taskId persisted })
    else .ok (host, state)

def finishedStatus : Except Text Unit → TaskStatus
  | .error _ => .failed
  | .ok _ => .completed

def finishedLog : Except Text Unit → List Text
  | .error message => [message]
  | .ok _ => []

def finishTask (now : UTCTime) (host : SchedulerHost) (state : AdapterState) (taskId : TaskId)
    (attempt : Int64) (result : Except Text Unit) : Outcome (SchedulerHost × AdapterState) :=
  match state.adapterRunning.lookup taskId with
  | none => .ok (host, state)
  | some running =>
    if running.runningAttempt = attempt then do
      let host := host.forget taskId
      let withoutWorker := { state with adapterRunning := state.adapterRunning.delete taskId }
      match state.adapterTasks.lookup taskId with
      | none => pure (host, withoutWorker)
      | some task =>
        if task.status = .running ∧ task.attempt = attempt then do
          let updated :=
            { task with
              status := finishedStatus result
              updatedAt := now
              logTail := task.logTail ++ finishedLog result }
          let (host, persisted) ← persistBounded library config host updated
          let kept :=
            if persisted.status = .completed then
              { withoutWorker with adapterInputs := withoutWorker.adapterInputs.delete taskId }
            else withoutWorker
          pure (host, { kept with adapterTasks := state.adapterTasks.insert taskId persisted })
        else pure (host, withoutWorker)
    else .ok (host, state)

def truncatedLogLine : Text := "[output truncated: scheduler log queue was full]".toList

def handleMessage (now : UTCTime) (host : SchedulerHost) (state : AdapterState) :
    AdapterMessage → Outcome (SchedulerHost × AdapterState)
  | .execute command reply active =>
    if active = true then do
      let (host, next, result) ← executeCommand library config now host state command
      pure (host.putReply reply result, next)
    else .ok (host, state)
  | .taskLogged taskId attempt line => appendLog library config now host state taskId attempt line
  | .taskLogTruncated taskId attempt =>
    appendLog library config now host state taskId attempt truncatedLogLine
  | .taskFinished taskId attempt result =>
    finishTask library config now host state taskId attempt result

/-! ### Starting tasks -/

def activeSessions (state : AdapterState) : Finset Text :=
  (state.adapterRunning.keys.filterMap fun taskId =>
    (state.adapterTasks.lookup taskId).bind (·.sessionId)).toFinset

def candidates (state : AdapterState) : List (Candidate TaskId) :=
  state.adapterPending.filterMap fun taskId =>
    (state.adapterTasks.lookup taskId).map fun task => (⟨task.taskId, task.sessionId⟩, taskId)

def capacity (state : AdapterState) : ℤ :=
  state.adapterLimit - state.adapterRunning.keys.length

/-- A worker is launched with a task and put into the registry. -/
def SchedulerHost.launchWorker (host : SchedulerHost) (taskId : TaskId) (persisted : DurableTask)
    (executionTask : DurableTask) : SchedulerHost × RunningTask :=
  let running : RunningTask :=
    { runningAttempt := persisted.attempt, runningWorker := host.workers.length }
  ({ host with
      workers := host.workers ++ [executionTask]
      registry := host.registry.insert taskId running }, running)

/-- The tasks and the workers while a pass starts tasks. -/
structure Launched where
  host : SchedulerHost
  tasks : FinMap TaskId DurableTask
  running : FinMap TaskId RunningTask

/-- The task as its worker gets it: with the prompt, where it is known. -/
def executionTask (inputs : FinMap TaskId DurableTask) (taskId : TaskId)
    (persisted : DurableTask) : DurableTask :=
  match inputs.lookup taskId with
  | none => persisted
  | some input =>
    { input with
      status := .running
      attempt := persisted.attempt
      updatedAt := persisted.updatedAt
      logTail := persisted.logTail }

def launch (now : TaskId → UTCTime) (inputs : FinMap TaskId DurableTask) (launched : Launched)
    (taskId : TaskId) : Outcome Launched :=
  match launched.tasks.lookup taskId with
  | none => .ok launched
  | some task => do
    let started := { task with status := .running, updatedAt := now taskId }
    let (host, persisted) ← persistBounded library config launched.host started
    let (host, running) :=
      host.launchWorker taskId persisted (executionTask inputs taskId persisted)
    pure
      { host
        tasks := launched.tasks.insert taskId persisted
        running := launched.running.insert taskId running }

def startRunnable (now : TaskId → UTCTime) (host : SchedulerHost) (state : AdapterState) :
    Outcome (SchedulerHost × AdapterState) := do
  let (selected, remaining) :=
    selectRunnableTasks (capacity state) (activeSessions state) (candidates state)
  let launched ← (selected.map Prod.snd).foldlM (launch library config now state.adapterInputs)
    { host, tasks := state.adapterTasks, running := state.adapterRunning }
  pure (launched.host,
    { state with
      adapterPending := remaining.map Prod.snd
      adapterRunning := launched.running
      adapterTasks := launched.tasks })

/-! ### The loop -/

/-- The loop is about to start tasks, waits for a message, or has ended with an exception. -/
inductive Phase
  | starting
  | waiting
  | stopped (err : JournalError)
deriving DecidableEq

/-- The loop, and for each task when it was last put into the queue. -/
structure SchedulerWorld where
  state : AdapterState
  host : SchedulerHost
  phase : Phase
  clock : ℕ
  enqueuedAt : TaskId → ℕ

inductive SchedulerEvent
  | start (now : TaskId → UTCTime)
  | message (now : UTCTime) (received : AdapterMessage)

/-- The loop goes on with another state, or ends. -/
def SchedulerWorld.goOn (w : SchedulerWorld) (phase : Phase) :
    Outcome (SchedulerHost × AdapterState) → SchedulerWorld
  | .error err => { w with phase := .stopped err }
  | .ok (host, state) =>
    { state, host, phase
      clock := w.clock + 1
      enqueuedAt := fun taskId =>
        if taskId ∈ state.adapterPending ∧ taskId ∉ w.state.adapterPending then w.clock
        else w.enqueuedAt taskId }

def step (w : SchedulerWorld) : SchedulerEvent → Option SchedulerWorld
  | .start now =>
    match w.phase with
    | .starting => some (w.goOn .waiting (startRunnable library config now w.host w.state))
    | _ => none
  | .message now received =>
    match w.phase with
    | .waiting => some (w.goOn .starting (handleMessage library config now w.host w.state received))
    | _ => none

/-- The loop of a journal that was opened. -/
def schedulerLoop (journal : Journal) (disk : Disk) : SchedulerWorld where
  state :=
    { adapterLimit := defaultTaskLimit
      adapterPending := []
      adapterRunning := FinMap.empty
      adapterTasks := journal.state.durableSnapshot.tasks
      adapterInputs := FinMap.empty }
  host :=
    { journal, disk
      registry := FinMap.empty
      workers := []
      cancelled := []
      replies := [] }
  phase := .starting
  clock := 0
  enqueuedAt := fun _ => 0

end Adapter

end HaskellAgent.Daemon
