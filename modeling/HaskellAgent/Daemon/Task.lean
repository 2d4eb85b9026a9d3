import HaskellAgent.Responses.JsonMembers

/-!
# Durable tasks

A task of the daemon, as it is kept in the journal, and its JSON.
-/

namespace HaskellAgent.Daemon

open HaskellAgent.Wire

abbrev TaskId := Text

/-- A time, by the text that it is written as. -/
structure UTCTime where
  iso8601 : Text
deriving DecidableEq

inductive TaskStatus
  | queued
  | running
  | completed
  | failed
  | cancelled
  | interrupted
deriving DecidableEq

structure DurableTask where
  taskId : TaskId
  sessionId : Option Text
  status : TaskStatus
  description : Text
  workingDirectory : Text
  provider : Option Text
  model : Option Text
  effort : Option Text
  worktree : Bool
  attempt : Int64
  updatedAt : UTCTime
  logTail : List Text
deriving DecidableEq

/-- The JSON library and the text of its errors, times, and lower case. -/
structure DaemonLibrary extends JsonCodec where
  parseTime : Text → Option UTCTime
  toLower : Char → Char
  textToLower : Char → Text
  lineErrorMessage : List UInt8 → Text
  valueErrorMessage : Json → Text

/-- Numbers are written on one line, a time is read as it was written, and the marker of a redacted
text has its lower case. -/
structure DaemonLibrary.Lawful (library : DaemonLibrary) : Prop
    extends library.toJsonCodec.Lawful where
  newline_notMem_number : ∀ c e, '\n' ∉ library.renderNumber c e
  parse_time : ∀ time : UTCTime, library.parseTime time.iso8601 = some time
  redacted_lower : "[REDACTED]".toList.flatMap library.textToLower = "[redacted]".toList

def isActive (task : DurableTask) : Bool := task.status = .queued || task.status = .running

def interruptActive (now : UTCTime) (task : DurableTask) : DurableTask :=
  if isActive task then { task with status := .interrupted, updatedAt := now } else task

/-! ### JSON -/

def TaskStatus.tag : TaskStatus → Text
  | .queued => "TaskQueued".toList
  | .running => "TaskRunning".toList
  | .completed => "TaskCompleted".toList
  | .failed => "TaskFailed".toList
  | .cancelled => "TaskCancelled".toList
  | .interrupted => "TaskInterrupted".toList

def taskStatusDecoder : Decoder TaskStatus := fun v =>
  (Hermes.text v).bind fun tag =>
    [TaskStatus.queued, .running, .completed, .failed, .cancelled, .interrupted].find?
      fun status => decide (status.tag = tag)

def maybeText : Option Text → Json
  | none => .null
  | some text => .string text

/-- A machine integer; a number that is out of its range is not read. -/
def int64Decoder : Decoder Int64 := fun v =>
  ((integerDecoder v).bind boundedComputerInt).map Int64.ofInt

/-- A member with the same default for missing and `null`. -/
def atKeyOr {α : Type} (fallback : α) (key : String) (decoder : Decoder α) : FieldsDecoder α :=
  fun members => (optionalAtKey key decoder members).map (Option.getD · fallback)

def DurableTask.toJson (task : DurableTask) : Json :=
  objectWith
    [field "taskId" (.string task.taskId),
      field "sessionId" (maybeText task.sessionId),
      field "status" (.string task.status.tag),
      field "description" (.string task.description),
      field "workingDirectory" (.string task.workingDirectory),
      field "provider" (maybeText task.provider),
      field "model" (maybeText task.model),
      field "effort" (maybeText task.effort),
      field "worktree" (.bool task.worktree),
      field "attempt" (integer task.attempt.toInt),
      field "updatedAt" (.string task.updatedAt.iso8601),
      field "logTail" (listOf Json.string task.logTail)]

section Reading

variable (library : DaemonLibrary)

def timeDecoder : Decoder UTCTime := fun v => (Hermes.text v).bind library.parseTime

/-- The defaults keep snapshots of the first daemon readable. -/
def durableTaskDecoder : Decoder DurableTask :=
  Hermes.object fun members => do
    let taskId ← Hermes.atKey "taskId" Hermes.text members
    let sessionId ← optionalAtKey "sessionId" Hermes.text members
    let status ← Hermes.atKey "status" taskStatusDecoder members
    let description ← Hermes.atKey "description" Hermes.text members
    let workingDirectory ← atKeyOr ".".toList "workingDirectory" Hermes.text members
    let provider ← optionalAtKey "provider" Hermes.text members
    let model ← optionalAtKey "model" Hermes.text members
    let effort ← optionalAtKey "effort" Hermes.text members
    let worktree ← atKeyOr false "worktree" Hermes.bool members
    let attempt ← atKeyOr 1 "attempt" int64Decoder members
    let updatedAt ← Hermes.atKey "updatedAt" (timeDecoder library) members
    let logTail ← Hermes.atKey "logTail" (Hermes.list Hermes.text) members
    pure { taskId, sessionId, status, description, workingDirectory, provider, model, effort,
           worktree, attempt, updatedAt, logTail }

end Reading

/-! ### Round trips -/

theorem isActive_interruptActive (now : UTCTime) (task : DurableTask) :
    isActive (interruptActive now task) = false := by
  unfold interruptActive
  split
  · rfl
  · next h => simpa using h

@[simp] theorem interruptActive_taskId (now : UTCTime) (task : DurableTask) :
    (interruptActive now task).taskId = task.taskId := by
  unfold interruptActive
  split <;> rfl

theorem taskStatus_written (status : TaskStatus) :
    taskStatusDecoder (.string status.tag) = some status := by
  cases status <;> decide +kernel

theorem int64_written (n : Int64) : int64Decoder (integer n.toInt) = some n := by
  have hlow := n.le_toInt
  have hhigh := n.toInt_lt
  have hread : integerDecoder (integer n.toInt) = some n.toInt := by
    simp [integerDecoder, integer, normNumber_integer]
  have hrange : ¬ (n.toInt < -2 ^ 63 ∨ 2 ^ 63 - 1 < n.toInt) := by omega
  rw [int64Decoder, hread, Option.bind_some, boundedComputerInt, if_neg hrange, Option.map_some,
    Int64.ofInt_toInt]

theorem norm_maybeText (o : Option Text) : (maybeText o).norm = maybeText o := by
  cases o <;> simp [maybeText, Json.norm]

theorem norm_texts (texts : List Text) :
    (listOf Json.string texts).norm = listOf Json.string texts := by
  simp [listOf, Json.norm, Json.normElements_eq_map]

/-- What a task is written as is normal. -/
theorem DurableTask.norm_toJson (task : DurableTask) : task.toJson.norm = task.toJson := by
  rw [DurableTask.toJson, norm_objectWith (by simp [field])]
  simp [objectWith, membersOf, field, Json.norm, norm_maybeText, norm_texts, norm_integer]

theorem texts_written (texts : List Text) :
    Hermes.list Hermes.text (listOf Json.string texts) = some texts := by
  rw [listOf, Hermes.list]
  induction texts with
  | nil => rfl
  | cons text texts ih =>
    rw [List.map_cons, List.mapM_cons]
    exact bind_some rfl (bind_some ih rfl)

section Written

variable {fields : List Field} {members : Object} {key : String}

theorem atKey_written {α : Type} {decoder : Decoder α} {v : Json} {a : α} (hw : Written fields members)
    (hread : decoder v.norm = some a) (hfield : fields.lookup key.toList = some (some v)) :
    Hermes.atKey key decoder members = some a := by
  rw [Hermes.atKey, hw hfield]
  exact hread

theorem atKeyOr_written {α : Type} {decoder : Decoder α} {v : Json} {fallback a : α}
    (hw : Written fields members) (hread : Hermes.nullable decoder v.norm = some (some a))
    (hfield : fields.lookup key.toList = some (some v)) :
    atKeyOr fallback key decoder members = some a := by
  have hmember : members.lookup key.toList = some v.norm := hw hfield
  rw [atKeyOr, optionalAtKey, Hermes.atKeyOptional, hmember]
  simp only [hread]
  rfl

theorem maybeText_written {o : Option Text} (hw : Written fields members)
    (hfield : fields.lookup key.toList = some (some (maybeText o))) :
    optionalAtKey key Hermes.text members = some o := by
  have hmember : members.lookup key.toList = some (maybeText o).norm := hw hfield
  rw [optionalAtKey, Hermes.atKeyOptional, hmember, norm_maybeText]
  cases o <;> rfl

end Written

/-- **A task is read as it was written.** -/
theorem durableTask_written {library : DaemonLibrary} (hlibrary : library.Lawful)
    (task : DurableTask) : durableTaskDecoder library task.toJson = some task := by
  have hstatus : taskStatusDecoder (Json.string task.status.tag).norm = some task.status := by
    rw [Json.norm]
    exact taskStatus_written task.status
  have hdirectory : Hermes.nullable Hermes.text (Json.string task.workingDirectory).norm =
      some (some task.workingDirectory) := by
    rw [Json.norm]
    rfl
  have hworktree : Hermes.nullable Hermes.bool (Json.bool task.worktree).norm =
      some (some task.worktree) := by
    rw [Json.norm]
    rfl
  have hattempt : Hermes.nullable int64Decoder (integer task.attempt.toInt).norm =
      some (some task.attempt) := by
    rw [norm_integer, nullable_of_ne_null integer_ne_null, int64_written]
    rfl
  have htime : timeDecoder library (Json.string task.updatedAt.iso8601).norm =
      some task.updatedAt := by
    rw [Json.norm]
    exact hlibrary.parse_time task.updatedAt
  have hlog : Hermes.list Hermes.text (listOf Json.string task.logTail).norm = some task.logTail := by
    rw [norm_texts]
    exact texts_written task.logTail
  rw [← task.norm_toJson]
  refine reads_objectWith (by simp [field]) fun members hw => ?_
  refine bind_some (hw.tag rfl) ?_
  refine bind_some (maybeText_written hw rfl) ?_
  refine bind_some (atKey_written hw hstatus rfl) ?_
  refine bind_some (hw.tag rfl) ?_
  refine bind_some (atKeyOr_written hw hdirectory rfl) ?_
  refine bind_some (maybeText_written hw rfl) ?_
  refine bind_some (maybeText_written hw rfl) ?_
  refine bind_some (maybeText_written hw rfl) ?_
  refine bind_some (atKeyOr_written hw hworktree rfl) ?_
  refine bind_some (atKeyOr_written hw hattempt rfl) ?_
  refine bind_some (atKey_written hw htime rfl) ?_
  exact bind_some (atKey_written hw hlog rfl) rfl

end HaskellAgent.Daemon
