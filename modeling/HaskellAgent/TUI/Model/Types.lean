import HaskellAgent.Loop.Events

/-!
# Blocks and events of the retained terminal interface

## Main definitions

* `UiBlock` — one block of a transcript.
* `UiEvent` — what may happen to the interface.
-/

namespace HaskellAgent
namespace TUI

abbrev BlockId := ℤ

inductive BlockKind
  | user
  | assistant
  | thinking
  | tool
  | inspect
  | todo
  | shell
  | edit
  | system
  | recap
  | error
  deriving DecidableEq, Repr

inductive BlockState
  | streaming
  | running
  | complete
  | failed
  | cancelled
  | denied
  deriving DecidableEq, Repr

structure UiBlock where
  blockId : BlockId
  blockKind : BlockKind
  blockTitle : Text
  blockBody : Text
  blockTimestamp : Text
  blockDetail : Text
  blockState : BlockState
  blockExpanded : Bool
  blockCallId : Option Text
  /-- Whether restored neighbours may be folded into an inspection burst. -/
  blockInspectionGroupable : Bool
  deriving DecidableEq, Repr

inductive NoticeKind
  | info
  | success
  | warning
  | progress
  | error
  deriving DecidableEq, Repr

structure UiNotice where
  noticeKind : NoticeKind
  noticeText : Text
  noticeTransient : Bool
  deriving DecidableEq, Repr

inductive Focus
  | composer
  | scrollback
  | permission
  deriving DecidableEq, Repr

structure PromptLimitStatus where
  promptLimitText : Text
  promptLimitWarning : Bool
  deriving DecidableEq, Repr

structure PromptState where
  promptModel : Text
  promptEffort : Text
  promptEffortOptions : List Text
  promptMode : Text
  promptAccount : Text
  promptAccountSelectable : Bool
  promptUsage : TokenUsage
  promptLimitStatus : Option PromptLimitStatus
  promptAttachments : ℤ
  deriving DecidableEq, Repr

inductive UiEvent
  | loop (event : LoopEvent)
  | userSubmitted (text : Text)
  | draftSubmitted
  | inputSteered (text : Text)
  | inputQueued (text : Text)
  | inputPromoted (text : Text)
  | queuedInputStarted
  | setDraft (text : Text) (cursor : ℤ)
  | setPrompt (prompt : PromptState)
  | setPromptTarget (model account : Text)
  | setPromptEffort (effort : Text)
  | setPromptLimitStatus (limitStatus : Option PromptLimitStatus)
  | setContextUsage (tokens contextWindow : Option ℤ)
  | setAwaitingInput (awaiting : Bool)
  | setRepository (branch cwd workspace : Text)
  | setNotice (notice : Option UiNotice)
  | asyncQuestion (message : Text)
  | dismissAsyncQuestions
  | setBackgroundTaskStatus (rows : List Text)
  | moveSelection (delta : ℤ)
  | selectBlock (ident : BlockId)
  | activateBlock (ident : BlockId)
  | toggleSelected
  | focusChanged (focus : Focus)
  | permissionShown (summary : Text)
  | permissionMoved (delta : ℤ)
  | permissionHidden
  | history (history : Text)
  | assistantHistory (message : Text)
  | systemMessage (message : Text)
  | recapStarted
  | recapReady (summary : Text)
  | recapUnavailable (message : Text)
  | errorMessage (message : Text)
  /-- An error whose retry guidance counts down in place. -/
  | retryCountdown (pre : Text) (remainingMillis : ℤ) (suffix : Text)
  | conversationCleared
  | setFollow (follow : Bool)
  | turnEnded (terminalState : BlockState)
  | turnRestarted

end TUI
end HaskellAgent
