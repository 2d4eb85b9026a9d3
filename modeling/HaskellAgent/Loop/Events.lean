import HaskellAgent.Loop.Input

/-!
# Live events of the agent loop

The provider-neutral events that the loop publishes while a turn runs.

## Main definitions

* `TurnOutput` — the completed output of a response.
* `LoopEvent` — the events.
-/

namespace HaskellAgent

/-- Token counts for one model response, as the provider reports them. -/
structure TokenUsage where
  inputTokens : ℤ
  outputTokens : ℤ
  cachedTokens : ℤ
  deriving DecidableEq, Repr

inductive TurnCompletion
  | turnCompleted
  | turnIncomplete (incompleteReason : Text) (incompleteReasoningTokens : Option ℤ)
  deriving DecidableEq, Repr

/-- The output of a response.  Its telemetry is kept only by its summary. -/
structure TurnOutput where
  responseId : Text
  toolCalls : List ToolCall
  assistantText : Option Text
  tokenUsage : TokenUsage
  contextUsage : Option TokenUsage
  telemetrySummary : Option Text
  completion : TurnCompletion
  deriving DecidableEq, Repr

inductive NativeAgentStatus
  | running
  | completed
  | failed
  | cancelled
  deriving DecidableEq, Repr

inductive LoopEvent
  | textDelta (delta : Text)
  /-- Plan markdown, separated from ordinary assistant text. -/
  | planDelta (delta : Text)
  | reasoningDelta (delta : Text)
  /-- Transport or tool activity for the status line. -/
  | activityUpdated (activity : Text)
  /-- The history that the model sees was rewritten or truncated. -/
  | modelContextReset
  | providerLimitUpdated (providerLimitText : Text) (providerLimitWarning : Bool)
  | warningRaised (warning : Text)
  /-- A streamed response was interrupted and is submitted again. -/
  | responseRestarted (message : Text)
  | turnStarted
  | turnFinished (output : TurnOutput)
  | toolStarted (call : ToolCall)
  /-- New metadata of a call that is already visible. -/
  | toolUpdated (call : ToolCall)
  /-- The preview of a call whose arguments are still streaming. -/
  | toolArgumentsUpdated (call : ToolCall)
  /-- The output of a call so far. -/
  | toolOutputUpdated (callId output : Text)
  | toolFinished (result : ToolCallResult)
  | toolRetracted (callId : Text)
  /-- What the current attempt has shown is to be discarded. -/
  | responseAttemptDiscarded
  /-- The backend has failed for good after it has shown something. -/
  | responseAttemptFailed
  | nativeAgentStarted (agent : Text) (parent : Option Text) (prompt : Text) (model : Option Text)
  | nativeAgentOutput (agent output : Text)
  | nativeAgentFinished (agent : Text) (status : NativeAgentStatus)

end HaskellAgent
