import HaskellAgent.Loop.InputItems
import HaskellAgent.Subagents.Mail

/-!
# The data of the subagent registry

Statuses and their texts, task paths, limits and failures: what the registry's transactions read
and return.
-/

namespace HaskellAgent

abbrev SubagentId := Text

/-- An instant, with the text `show` gives for it. -/
structure UTCTime where
  instant : ℕ
  display : Text
  deriving DecidableEq, Repr

/-! ### Statuses -/

inductive SubagentStatus
  | pending
  | running
  | completed (finalText : Option Text)
  | errored (error : Text)
  | interrupted
  | suspended (deadline : UTCTime) (reason : Text)
  | closed
  | notFound
  deriving DecidableEq, Repr

def isFinalStatus : SubagentStatus → Bool
  | .completed _ => true
  | .errored _ => true
  | .interrupted => true
  | .closed => true
  | .notFound => true
  | .pending => false
  | .running => false
  | .suspended _ _ => true

def isSuspended : SubagentStatus → Bool
  | .suspended _ _ => true
  | _ => false

def statusSummary : SubagentStatus → Text
  | .completed (some text) => "completed\nfinal: ".toList ++ text
  | .completed none => "completed".toList
  | .errored err => "errored\nerror: ".toList ++ err
  | .interrupted => "interrupted".toList
  | .closed => "shutdown".toList
  | .pending => "pending_init".toList
  | .running => "running".toList
  | .notFound => "not_found".toList
  | .suspended deadline reason =>
      "suspended\nuntil: ".toList ++ deadline.display ++ "\nreason: ".toList ++ reason

/-- The notice a parent receives when a child finishes. -/
def formatCompletionNotice (agentId : SubagentId) (status : SubagentStatus) : Text :=
  "<subagent_notification>\nagent_id: ".toList ++ agentId ++ "\nstatus: ".toList
    ++ statusSummary status ++ "\n</subagent_notification>".toList

/-! ### Task paths -/

/-- An absolute path under `/root`. -/
abbrev TaskPath := Text

def taskPathRoot : TaskPath := ['/', 'r', 'o', 'o', 't']

def isNameChar (c : Char) : Bool := ('a' ≤ c && c ≤ 'z') || ('0' ≤ c && c ≤ '9') || c == '_'

def validateTaskName (name : Text) : Except Text Text :=
  if name.isEmpty then .error "task_name must not be empty".toList
  else if name = "root".toList then .error "task_name must not be \"root\"".toList
  else if name.any (fun c => !isNameChar c) then
    .error "task_name must use lowercase letters, digits, and underscores only".toList
  else .ok name

def validateSegments (segments : List Text) : Except Text Unit :=
  if segments.any List.isEmpty then .error "task path must not contain empty segments".toList
  else segments.forM fun segment => do
    let _ ← validateTaskName segment

def validateAbsolute (path : Text) : Except Text Unit :=
  if path = taskPathRoot then .ok ()
  else if (taskPathRoot ++ ['/']).isPrefixOf path then
    validateSegments ((path.drop (taskPathRoot ++ ['/']).length).splitOn '/')
  else .error "task path must start with /root".toList

/-- `Text.strip`. -/
def strip (text : Text) : Text :=
  ((text.dropWhile isSpace).reverse.dropWhile isSpace).reverse

def parseTaskPath (raw : Text) : Except Text TaskPath :=
  let path := strip raw
  if path.isEmpty then .error "task path must not be empty".toList
  else do
    validateAbsolute path
    return path

/-- The path of a child task. -/
def joinTaskPath (parent : TaskPath) (name : Text) : Except Text TaskPath := do
  let validated ← validateTaskName name
  parseTaskPath (parent ++ ['/'] ++ validated)

/-! ### Limits and failures -/

structure SubagentConfig where
  maxConcurrent : ℤ
  /-- `none` means unlimited nesting depth. -/
  maxDepth : Option ℤ
  /-- Admissions of new agents owned by one root turn; `none` disables the budget. -/
  maxSpawnedPerTurn : Option ℤ
  deriving DecidableEq, Repr

def defaultSubagentConfig : SubagentConfig where
  maxConcurrent := 8
  maxDepth := some 1
  maxSpawnedPerTurn := some 16

inductive AdmissionFailure
  | registryClosed
  | turnAborted
  | capacityExceeded (limit : ℤ)
  deriving DecidableEq, Repr

inductive StartupRejection
  | registryClosed
  | turnAborted
  | agentClosed
  | agentMissing
  | pathOccupied
  | supervisorPresent
  deriving DecidableEq, Repr

inductive BusyState
  | workPending
  | workRunning
  | workInterrupting
  deriving DecidableEq, Repr

/-- Why admission, startup or delivery failed. -/
inductive CoordinationError
  | admissionRejected (failure : AdmissionFailure)
  | suspendedAdmissionRejected (failure : AdmissionFailure)
  | depthLimitExceeded (limit : ℤ)
  | turnBudgetExceeded (limit : ℤ)
  | invalidParentContext
  | parentUnavailable (parent : SubagentId)
  | invalidTaskName (detail : Text)
  | taskPathOccupied (path : TaskPath)
  | unknownAgent (agent : SubagentId)
  | missingAgent (agent : SubagentId)
  | agentClosed (agent : SubagentId)
  | agentBusy (agent : SubagentId) (state : BusyState)
  | startupRejected (agent : SubagentId) (reason : StartupRejection)
  | resumePersistenceFailed (detail : Text)
  deriving DecidableEq, Repr

end HaskellAgent
