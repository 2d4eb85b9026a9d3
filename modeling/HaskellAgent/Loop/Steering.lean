import HaskellAgent.Lib.AckQueue
import HaskellAgent.Lib.Machine
import HaskellAgent.Loop.Input

/-!
# Steering a running loop

The part of the agent loop that moves guidance: it reads the host's guidance and the children's
reports, submits them, is preempted by new guidance, publishes recovery checkpoints, and
acknowledges what the provider has seen.  `LoopWorld.step` is the loop as a machine.  Each move of
the loop worker is one access to something another thread can see, so that guidance, reports,
store resets and the end of the worker interleave with it at every point at which they can.

Each steering input has a serial number of its own, which the program does not have: it tells
inputs with equal contents apart.  A checkpoint of the backend store is only ever compared with
another one, so a number stands for it.

## Main definitions

* `Guidance`, `LoopInput`, `PendingInputs` — the inputs.
* `LoopPc` — where the loop worker is.
* `LoopWorld.fromHost` — how `withSubagentSteering` splits an acknowledgement.
* `LoopMove`, `LoopWorld.step` — the machine.
-/

namespace HaskellAgent

/-- A steering input of the host or a report of a child. -/
structure Guidance where
  serial : ℕ
  input : TurnInput
  /-- The task a background notice belongs to; `none` for user guidance. -/
  backgroundKey : Option Text
  deriving DecidableEq

/-- Whether the input is guidance of the user. -/
def Guidance.isUser (g : Guidance) : Bool := g.backgroundKey == none

/-- Number steering inputs from `start` on. -/
def numberFrom (start : ℕ) : List (TurnInput × Option Text) → List Guidance
  | [] => []
  | (input, key) :: rest =>
      { serial := start, input := input, backgroundKey := key } :: numberFrom (start + 1) rest

/-- A pending input: a prompt or a tool result, or a steering input. -/
inductive LoopInput
  | plain (input : TurnInput)
  | steering (guidance : Guidance)
  deriving DecidableEq

/-- The steering inputs among pending inputs. -/
def guidanceOf (inputs : List LoopInput) : List Guidance :=
  inputs.filterMap fun
    | .plain _ => none
    | .steering g => some g

structure PendingInputs where
  inputs : List LoopInput
  steeringToAcknowledge : ℕ

/-- What the loop configuration says about steering. -/
structure SteeringConfig where
  /-- `loopSubagents` is present, so steering goes through `withSubagentSteering`. -/
  loopSubagents : Bool
  loopMaxTurns : ℕ
  /-- `loopCloseSteering` hands back late guidance; otherwise it is `pure []`. -/
  loopCloseSteering : Bool
  /-- `subagentsBeforeAnswer` hands back late reports; otherwise it is `pure []`. -/
  subagentsBeforeAnswer : Bool

/-! ### The loop worker -/

/-- Why steering is read. -/
inductive ReadFor
  /-- `initializeLoopRuntime`. -/
  | start
  /-- `continueSteeredLoop`. -/
  | steered
  /-- `advanceCompletedTurn`. -/
  | turn
  deriving DecidableEq

/-- Why steering is acknowledged. -/
inductive AcknowledgeFor
  /-- `publishSubmissionRecovery`, after a steering interrupt or after a failure. -/
  | recovery (steering : Bool)
  /-- `completeLoopTurn`. -/
  | turn
  /-- `recoverTools`. -/
  | tools
  deriving DecidableEq

/-- Where the loop worker is. -/
inductive LoopPc
  /-- About to read the host's guidance, then the children's reports. -/
  | readingHost (why : ReadFor)
  | readingChildren (why : ReadFor) (host : List Guidance)
  /-- `loopReadSteering` returned; the pending inputs are not updated yet. -/
  | gotSteering (why : ReadFor) (steering : List Guidance)
  /-- The top of `runLoopState`. -/
  | top
  | submitting
  /-- In `publishSubmissionRecovery`, before the store is read. -/
  | recovering (steering : Bool)
  /-- In `continueSteeredLoop`, running the calls of the interrupted response. -/
  | steered
  /-- The response is committed; its inputs are still pending. -/
  | responded
  /-- Its inputs are absorbed. -/
  | absorbed
  /-- In `loopCommitSteering`: the host's part, then the children's. -/
  | acknowledgingHost (why : AcknowledgeFor)
  | acknowledgingChildren (why : AcknowledgeFor) (count : ℕ)
  /-- About to clear the acknowledgement debt. -/
  | clearing (why : AcknowledgeFor)
  /-- In `completeLoopTurn`, running the calls of the response. -/
  | tools
  /-- In `loopCloseSteering`: the children's part, then the host's. -/
  | closingChildren
  | closingHost
  | gotLate (late : List Guidance)
  /-- The worker has ended and was joined; `recoverTools` is next. -/
  | stopped
  | done
  deriving DecidableEq

/-- The loop, its steering sources and the history of their inputs. -/
structure LoopWorld where
  config : SteeringConfig
  host : AckQueue Guidance
  children : List Guidance
  nextSerial : ℕ
  /-- The `hostShare` of `withSubagentSteering`. -/
  hostShare : ℕ
  pending : PendingInputs
  checkpoint : ℕ
  /-- What `readBackendState` returns. -/
  store : ℕ
  turnsUsed : ℕ
  pc : LoopPc
  /-- The present debt was already acknowledged to the host, or to the children, and is not cleared
  yet. -/
  hostPaid : Bool
  childrenPaid : Bool
  /-- Every steering input of a submission or of a committed recovery checkpoint. -/
  appeared : List Guidance
  acknowledged : List Guidance

/-- The moves of the loop worker and of the threads around it. -/
inductive LoopMove
  /-- The host accepts guidance or background notices. -/
  | hostEnqueue (inputs : List (TurnInput × Option Text))
  /-- The host withdraws notices of a task that were not read yet. -/
  | hostDismiss (key : Text)
  /-- Children report. -/
  | childReport (inputs : List TurnInput)
  /-- A compaction or a reset replaces the stored checkpoint. -/
  | replaceStore (snapshot : ℕ)
  | readHost
  | readChildren
  | applySteering
  | submit
  /-- The provider answered and its state was committed. -/
  | respond (committed : ℕ)
  /-- The wait for guidance won. -/
  | steer
  /-- The submission failed, was cancelled, or the worker is killed inside it. -/
  | fail
  /-- `publishSubmissionRecovery`: whether the journal holds anything, and the committed
  checkpoint, `none` when the commit throws. -/
  | publish (journal : Bool) (committed : Option ℕ)
  | steeredTools (results : List ToolCallResult)
  | absorb
  | acknowledge
  | commitHost
  | commitChildren
  | clear
  | turnTools (results : List ToolCallResult)
  | beforeAnswer
  | closeHost
  | applyLate
  /-- The worker returns early, fails or is killed. -/
  | stop
  /-- `recoverTools` with orphaned calls: the committed checkpoint, `none` when the commit
  throws. -/
  | recoverTools (committed : Option ℕ)
  | finish

namespace LoopWorld

/-! ### The pieces of the loop -/

/-- Number the steering inputs a source accepts. -/
def numbered (s : LoopWorld) (inputs : List (TurnInput × Option Text)) : List Guidance :=
  numberFrom s.nextSerial inputs

/-- How many of `count` acknowledged inputs are the host's: `withSubagentSteering` splits by the
composition of the last batch. -/
def fromHost (s : LoopWorld) (count : ℕ) : ℕ :=
  if s.config.loopSubagents then min count s.hostShare else count

def setPendingInputs (s : LoopWorld) (inputs : List LoopInput) : LoopWorld :=
  { s with pending := { s.pending with inputs := inputs } }

/-- The steering inputs of the pending inputs appear in a submission or a checkpoint. -/
def appear (s : LoopWorld) : LoopWorld :=
  { s with appeared := s.appeared ++ guidanceOf s.pending.inputs }

def recordCheckpoint (s : LoopWorld) (committed : ℕ) : LoopWorld :=
  { s with checkpoint := committed, store := committed }

/-- Commit a recovery checkpoint that holds the pending inputs, and turn to acknowledging them. -/
def commitRecovery (s : LoopWorld) (committed : ℕ) (why : AcknowledgeFor) : LoopWorld :=
  { ((s.appear.recordCheckpoint committed).setPendingInputs []) with
    pc := .acknowledgingHost why }

/-- Go back to `runLoopState` with new pending inputs. -/
def continueWith (s : LoopWorld) (pending : PendingInputs) (turnsUsed : ℕ) : LoopWorld :=
  { s with pending := pending, turnsUsed := turnsUsed, pc := .top }

/-- The pending inputs after `loopReadSteering` returned `steering`. -/
def applySteering (s : LoopWorld) (why : ReadFor) (steering : List Guidance) : LoopWorld :=
  match why with
  | .start =>
      s.continueWith ⟨s.pending.inputs ++ steering.map .steering, steering.length⟩ s.turnsUsed
  | .steered =>
      -- the inputs already submitted are still queued in front, and are not read twice
      let unseen := steering.drop s.pending.steeringToAcknowledge
      s.continueWith ⟨s.pending.inputs ++ unseen.map .steering, steering.length⟩ s.turnsUsed
  | .turn =>
      -- `decideCompletedTurn`: a response that leaves nothing to submit ends the turn
      let continuation := s.pending.inputs ++ steering.map .steering
      if continuation.isEmpty then
        { s with pc := if s.config.loopSubagents then .closingChildren else .closingHost }
      else s.continueWith ⟨continuation, steering.length⟩ (s.turnsUsed + 1)

/-- `publishSubmissionRecovery`. -/
def publishSubmissionRecovery (s : LoopWorld) (steering journal : Bool) (committed : Option ℕ) :
    LoopWorld :=
  if steering && s.store != s.checkpoint then
    -- a compaction or a reset owns the newer checkpoint, so no old history comes back
    { s.recordCheckpoint s.store with pc := .steered }
  else if journal && s.store == s.checkpoint then
    match committed with
    | none => { s with pc := .stopped }
    | some snapshot => s.commitRecovery snapshot (.recovery steering)
  else { s with pc := if steering then .steered else .stopped }

/-- Where the worker goes on after an acknowledgement. -/
def afterAcknowledge : AcknowledgeFor → LoopPc
  | .recovery true => .steered
  | .recovery false => .stopped
  | .turn => .tools
  | .tools => .done

/-- The host's part of `loopCommitSteering`. -/
def commitHost (s : LoopWorld) (why : AcknowledgeFor) : LoopWorld :=
  let count := s.pending.steeringToAcknowledge
  let share := s.fromHost count
  { s with
    host := s.host.commit share
    acknowledged := s.acknowledged ++ s.host.entries.take share
    hostPaid := true
    pc := if s.config.loopSubagents then .acknowledgingChildren why (count - share)
      else .clearing why }

/-- The children's part of it. -/
def commitChildren (s : LoopWorld) (why : AcknowledgeFor) (count : ℕ) : LoopWorld :=
  { s with
    children := s.children.drop count
    acknowledged := s.acknowledged ++ s.children.take count
    childrenPaid := true
    pc := .clearing why }

def clearSteeringAcknowledgement (s : LoopWorld) (why : AcknowledgeFor) : LoopWorld :=
  { s with
    pending := { s.pending with steeringToAcknowledge := 0 }
    hostPaid := false
    childrenPaid := false
    pc := afterAcknowledge why }

/-- Where the worker is when it ends early: the inputs of the first turn are read before there is
anything to recover, and `recoverTools` is not run twice.  Inside a submission the failure first
publishes the recovery. -/
def stopFrom : LoopPc → Option LoopPc
  | .readingHost .start | .readingChildren .start _ | .gotSteering .start _ => some .done
  | .acknowledgingHost .tools | .acknowledgingChildren .tools _ | .clearing .tools => some .done
  | .submitting | .recovering _ | .stopped | .done => none
  | _ => some .stopped

/-! ### The machine -/

/-- A loop about to start with prompts `first`, beside what its sources already hold. -/
def init (config : SteeringConfig) (first : List TurnInput)
    (host : List (TurnInput × Option Text)) (children : List TurnInput) : LoopWorld where
  config := config
  host := { entries := numberFrom 0 host, reserved := 0 }
  children := if config.loopSubagents then
    numberFrom host.length (children.map fun input => (input, some [])) else []
  nextSerial := host.length + children.length
  hostShare := 0
  pending := ⟨first.map .plain, 0⟩
  checkpoint := 0
  store := 0
  turnsUsed := 0
  pc := .readingHost .start
  hostPaid := false
  childrenPaid := false
  appeared := []
  acknowledged := []

/-- One move. -/
def step (s : LoopWorld) : LoopMove → Option LoopWorld
  | .hostEnqueue inputs =>
      some { s with
        host := s.host.append (s.numbered inputs)
        nextSerial := s.nextSerial + inputs.length }
  | .hostDismiss key =>
      some { s with host := s.host.dismiss (fun g => g.backgroundKey == some key) }
  | .childReport inputs =>
      if s.config.loopSubagents then
        some { s with
          children := s.children ++ s.numbered (inputs.map fun input => (input, some []))
          nextSerial := s.nextSerial + inputs.length }
      else none
  | .replaceStore snapshot => some { s with store := snapshot }
  | .readHost =>
      match s.pc with
      | .readingHost why =>
          some { s with
            host := s.host.reserve
            pc := if s.config.loopSubagents then .readingChildren why s.host.entries
              else .gotSteering why s.host.entries }
      | _ => none
  | .readChildren =>
      match s.pc with
      | .readingChildren why host =>
          some { s with hostShare := host.length, pc := .gotSteering why (host ++ s.children) }
      | _ => none
  | .applySteering =>
      match s.pc with
      | .gotSteering why steering => some (s.applySteering why steering)
      | _ => none
  | .submit =>
      match s.pc with
      | .top =>
          if s.turnsUsed < s.config.loopMaxTurns then some { s.appear with pc := .submitting }
          else none
      | _ => none
  | .respond committed =>
      match s.pc with
      | .submitting => some { s.recordCheckpoint committed with pc := .responded }
      | _ => none
  | .steer =>
      match s.pc with
      | .submitting => some { s with pc := .recovering true }
      | _ => none
  | .fail =>
      match s.pc with
      | .submitting => some { s with pc := .recovering false }
      | _ => none
  | .publish journal committed =>
      match s.pc with
      | .recovering steering => some (s.publishSubmissionRecovery steering journal committed)
      | _ => none
  | .steeredTools results =>
      match s.pc with
      | .steered =>
          some { s.setPendingInputs
              (s.pending.inputs ++ results.map fun r => .plain (.completedTool r)) with
            pc := .readingHost .steered }
      | _ => none
  | .absorb =>
      match s.pc with
      | .responded => some { s.setPendingInputs [] with pc := .absorbed }
      | _ => none
  | .acknowledge =>
      match s.pc with
      | .absorbed => some { s with pc := .acknowledgingHost .turn }
      | _ => none
  | .commitHost =>
      match s.pc with
      | .acknowledgingHost why => some (s.commitHost why)
      | _ => none
  | .commitChildren =>
      match s.pc with
      | .acknowledgingChildren why count => some (s.commitChildren why count)
      | _ => none
  | .clear =>
      match s.pc with
      | .clearing why => some (s.clearSteeringAcknowledgement why)
      | _ => none
  | .turnTools results =>
      match s.pc with
      | .tools =>
          some { s.setPendingInputs (results.map fun r => .plain (.completedTool r)) with
            pc := .readingHost .turn }
      | _ => none
  | .beforeAnswer =>
      match s.pc with
      | .closingChildren =>
          let late := if s.config.subagentsBeforeAnswer then s.children else []
          if late.isEmpty then some { s with pc := .closingHost }
          -- the host's queue is not closed then, and none of the late inputs is its own
          else some { s with hostShare := 0, pc := .gotLate late }
      | _ => none
  | .closeHost =>
      match s.pc with
      | .closingHost =>
          let late := if s.config.loopCloseSteering then s.host.entries else []
          some { s with
            host := if s.config.loopCloseSteering then s.host.reserve else s.host
            hostShare := late.length
            pc := .gotLate late }
      | _ => none
  | .applyLate =>
      match s.pc with
      | .gotLate late =>
          if late.isEmpty then some { s with pc := .stopped }
          else some (s.continueWith ⟨late.map .steering, late.length⟩ (s.turnsUsed + 1))
      | _ => none
  | .stop => (stopFrom s.pc).map fun pc => { s with pc := pc }
  | .recoverTools committed =>
      match s.pc with
      | .stopped =>
          -- a superseded checkpoint is left alone
          if s.store = s.checkpoint then
            match committed with
            | none => some { s with pc := .done }
            | some snapshot => some (s.commitRecovery snapshot .tools)
          else none
      | _ => none
  | .finish =>
      match s.pc with
      | .stopped => some { s with pc := .done }
      | _ => none

end LoopWorld

end HaskellAgent
