import HaskellAgent.Server.Types

/-!
# Turns of the server

A client submits a turn; a supervisor runs it, and asks people for input on its behalf.  A record of
the turn says how far it has come.
-/

namespace HaskellAgent
namespace Server

/-- The identifier of a turn, ordered as the keys of a map are. -/
abbrev TurnId := ℕ

abbrev RequestId := ℕ

abbrev UTCTime := ℤ

inductive TurnStatus
  | turnQueued
  | turnRunning
  | turnWaitingForInput
  | turnCompleted
  | turnFailed
  | turnCancelled
  deriving DecidableEq

def isActiveStatus : TurnStatus → Bool
  | .turnQueued => true
  | .turnRunning => true
  | .turnWaitingForInput => true
  | .turnCompleted => false
  | .turnFailed => false
  | .turnCancelled => false

def isTerminalStatus (status : TurnStatus) : Bool := !isActiveStatus status

/-- What turns, reservations and admissions exclude each other by. -/
abbrev SessionKey := AccessBoundary × Text

structure TurnSpec where
  turnSpecSessionId : Text
  turnSpecClientRequestId : Text
  turnSpecPrompt : Text
  /-- The bytes of each image. -/
  turnSpecImages : List (List UInt8)
  turnSpecFiles : List (List UInt8)
  turnSpecBoundary : AccessBoundary
  deriving DecidableEq

def TurnSpec.key (spec : TurnSpec) : SessionKey := (spec.turnSpecBoundary, spec.turnSpecSessionId)

structure TurnRecord where
  turnRecordId : TurnId
  turnRecordSessionId : Text
  turnRecordClientRequestId : Text
  turnRecordBoundary : AccessBoundary
  turnRecordStatus : TurnStatus
  turnRecordCreatedAt : UTCTime
  turnRecordStartedAt : Option UTCTime
  turnRecordFinishedAt : Option UTCTime
  turnRecordError : Option Text
  turnRecordInput : Text
  deriving DecidableEq

def TurnRecord.key (record : TurnRecord) : SessionKey :=
  (record.turnRecordBoundary, record.turnRecordSessionId)

abbrev TurnRecord.active (record : TurnRecord) : Bool := isActiveStatus record.turnRecordStatus

inductive TurnTerminalOutcome
  | turnSucceeded
  | turnErrored (err : Text)
  | turnWasCancelled
  deriving DecidableEq

def boundedSupervisorText (value : Text) : Text :=
  if value.length ≤ 16384 then value else value.take 16383 ++ ['…']

def cancelledRecord (now : UTCTime) (record : TurnRecord) : TurnRecord :=
  { record with
    turnRecordStatus := .turnCancelled
    turnRecordFinishedAt := some now
    turnRecordError := none }

def terminalRecord (finishedAt : UTCTime) (outcome : TurnTerminalOutcome) (record : TurnRecord) :
    TurnRecord :=
  match outcome with
  | .turnSucceeded =>
      { record with
        turnRecordStatus := .turnCompleted
        turnRecordFinishedAt := some finishedAt
        turnRecordError := none }
  | .turnErrored err =>
      { record with
        turnRecordStatus := .turnFailed
        turnRecordFinishedAt := some finishedAt
        turnRecordError := some (boundedSupervisorText err) }
  | .turnWasCancelled => cancelledRecord finishedAt record

/-- The record of the turn when it is over. -/
structure EndOf (record canonical : TurnRecord) : Prop where
  turnId : canonical.turnRecordId = record.turnRecordId
  key : canonical.key = record.key
  terminal : canonical.active = false

theorem terminalRecord_endOf (finishedAt : UTCTime) (outcome : TurnTerminalOutcome)
    (record : TurnRecord) : EndOf record (terminalRecord finishedAt outcome record) := by
  cases outcome <;> exact ⟨rfl, rfl, rfl⟩

/-! ### Human input -/

structure HumanRequest where
  humanRequestId : RequestId
  humanRequestTurnId : TurnId
  humanRequestSessionId : Text
  humanRequestBoundary : AccessBoundary
  humanRequestOptions : List Text
  humanRequestCreatedAt : UTCTime
  deriving DecidableEq

structure HumanResponse where
  humanResponseDecision : Text
  humanResponseValue : Option Text
  deriving DecidableEq

def validHumanAnswer (options : List Text) (answer : Text) : Bool :=
  options.isEmpty || decide (answer ∈ options)

end Server
end HaskellAgent
