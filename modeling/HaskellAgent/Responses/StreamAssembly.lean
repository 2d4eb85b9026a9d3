import HaskellAgent.Responses.Items
import Mathlib.Data.Rat.Init

/-!
# Assembling a response from its stream

The events of a stream update a lifecycle response and a store of output items.  An event names its
item by its output index or by an identity; the store keeps, beside the slots, the slots that carry
each identity and the slots that are not done.  A terminal event ends the stream, and the response
is put together from its output and the slots.

`jsonDecodeError` is the constructor of the error for a response that cannot be assembled, and
`showEvent` the text of an event in it.
-/

namespace HaskellAgent.Responses

/-! ### Responses and events -/

inductive ResponseStatus
  | responseCompleted
  | responseFailed
  | responseInProgress
  | responseCancelled
  | responseQueued
  | responseIncomplete
  | responseStatusUnknown (value : Text)
  deriving DecidableEq

structure ResponseError where
  code : Text
  message : Text

structure IncompleteDetails where
  reason : Text

/-- The fields of a response that a later fragment overrides where it has them. -/
inductive ResponseField
  | instructions
  | metadata
  | parallelToolCalls
  | temperature
  | toolChoice
  | tools
  | topP
  | background
  | completedAt
  | conversation
  | maxOutputTokens
  | maxToolCalls
  | moderation
  | previousResponseId
  | prompt
  | promptCacheKey
  | promptCacheOptions
  | promptCacheRetention
  | reasoning
  | safetyIdentifier
  | serviceTier
  | text
  | topLogprobs
  | truncation
  | usage
  | user
  deriving DecidableEq

structure Response (π : Type) where
  responseId : Text
  createdAt : ℚ
  error : Option ResponseError
  incompleteDetails : Option IncompleteDetails
  model : Text
  object : Text
  output : List (ResponseItem π)
  status : ResponseStatus
  optional : ResponseField → Option π

structure ResponseStreamError where
  errorType : Option Text
  code : Option Text
  message : Text
  param : Option Text
  retryAfter : Option ℤ

/-- The types of the events that have no constructor of their own. -/
inductive StreamEventType
  | reasoningSummaryTextDelta
  | otherType (name : Text)
  deriving DecidableEq

inductive ResponseStreamEvent (π : Type)
  | responseCreatedEvent (responseValue : Response π) (sequenceNumber : Option ℤ)
  | responseInProgressEvent (responseValue : Response π) (sequenceNumber : Option ℤ)
  | responseCompletedEvent (responseValue : Response π) (sequenceNumber : Option ℤ)
  | responseDoneEvent (responseValue : Response π) (sequenceNumber : Option ℤ)
  | responseFailedEvent (responseValue : Response π) (sequenceNumber : Option ℤ)
  | responseIncompleteEvent (responseValue : Response π) (sequenceNumber : Option ℤ)
  | responseQueuedEvent (responseValue : Response π) (sequenceNumber : Option ℤ)
  | responseOutputItemAddedEvent (item : ResponseItem π) (outputIndex : Option ℤ)
      (sequenceNumber : Option ℤ)
  | responseOutputItemDoneEvent (item : ResponseItem π) (outputIndex : Option ℤ)
      (sequenceNumber : Option ℤ)
  | responseFunctionCallArgumentsDeltaEvent (delta streamItemId : Option Text)
      (streamOutputIndex sequenceNumber : Option ℤ)
  | responseFunctionCallArgumentsDoneEvent (arguments functionName streamItemId : Option Text)
      (streamOutputIndex sequenceNumber : Option ℤ)
  | responseCustomToolInputDeltaEvent (delta streamItemId streamCallId : Option Text)
      (streamOutputIndex sequenceNumber : Option ℤ)
  | responseCustomToolInputDoneEvent (inputText streamItemId streamCallId : Option Text)
      (streamOutputIndex sequenceNumber : Option ℤ)
  | responseReasoningSummaryPartAddedEvent (streamItemId : Option Text)
      (streamOutputIndex summaryIndex : Option ℤ) (partValue : Option ReasoningSummaryPart)
      (sequenceNumber : Option ℤ)
  | responseReasoningSummaryTextDoneEvent (streamItemId : Option Text)
      (streamOutputIndex summaryIndex : Option ℤ) (text : Option Text)
      (sequenceNumber : Option ℤ)
  | responseErrorEvent (streamError : ResponseStreamError) (sequenceNumber : Option ℤ)
  | responseNestedErrorEvent (streamError : ResponseStreamError) (sequenceNumber : Option ℤ)
  | responseCodexRateLimitsEvent (rateLimits : π) (sequenceNumber : Option ℤ)
  | otherResponseStreamEvent (otherEventType : StreamEventType) (sequenceNumber : Option ℤ)
      (eventDelta streamItemId : Option Text) (streamOutputIndex summaryIndex : Option ℤ)
      (turnState : Option Text)

variable {π : Type}

/-! ### Merging responses -/

def nonEmptyText (newer older : Text) : Text := if newer.isEmpty then older else newer

def mergeResponseFragment (base overlay : Response π) : Response π where
  responseId := nonEmptyText overlay.responseId base.responseId
  createdAt := if overlay.createdAt = 0 then base.createdAt else overlay.createdAt
  error := overlay.error <|> base.error
  incompleteDetails := overlay.incompleteDetails <|> base.incompleteDetails
  model := nonEmptyText overlay.model base.model
  object := nonEmptyText overlay.object base.object
  output := if overlay.output.isEmpty then base.output else overlay.output
  status := if overlay.status = .responseInProgress then base.status else overlay.status
  optional := fun field => overlay.optional field <|> base.optional field

abbrev ItemIdentityKey := Text × Text × Text

def itemIdentityKeys (item : ResponseItem π) : List ItemIdentityKey :=
  (responseItemIdentities item).map fun identity => (responseItemKind item, identity)

/-- The merge of a final item with a streamed one, which leaves `async` to the streamed item. -/
def mergeFinalItem (old new : ResponseItem π) : ResponseItem π :=
  match old, new with
  | .functionCallItem previous, .functionCallItem next =>
      .functionCallItem { next with
        itemId := next.itemId <|> previous.itemId
        callNamespace := next.callNamespace <|> previous.callNamespace
        status := next.status <|> previous.status }
  | .customToolCallItem previous, .customToolCallItem next =>
      .customToolCallItem { next with
        itemId := next.itemId <|> previous.itemId
        callNamespace := next.callNamespace <|> previous.callNamespace
        status := next.status <|> previous.status }
  | _, new => new

def mergeOutputItems (finalItems streamedItems : List (ResponseItem π)) : List (ResponseItem π) :=
  let finalKeys := finalItems.flatMap itemIdentityKeys
  -- a streamed item is kept unless a final one has one of its identities
  let alreadyPresent := fun item => (itemIdentityKeys item).any (· ∈ finalKeys)
  let sameIdentity := fun left right =>
    (itemIdentityKeys left).any (· ∈ itemIdentityKeys right)
  let preferStreamed := fun finalItem =>
    match streamedItems.find? (sameIdentity finalItem) with
    | none => finalItem
    | some streamed => mergeFinalItem finalItem streamed
  finalItems.map preferStreamed ++ streamedItems.filter fun item => !alreadyPresent item

def mergeCompletedResponseOutput (streamedItems : List (ResponseItem π)) (response : Response π) :
    Response π :=
  { response with output := mergeOutputItems response.output streamedItems }

def mergeDoneResponse (baseResponse : Option (Response π)) (streamedItems : List (ResponseItem π))
    (doneResponse : Response π) : Response π :=
  let merged := match baseResponse with
    | none => doneResponse
    | some base => mergeResponseFragment base doneResponse
  mergeCompletedResponseOutput streamedItems
    { merged with
      status := if doneResponse.status = .responseInProgress then .responseCompleted
        else doneResponse.status }

/-! ### The store of output items -/

structure OutputItemStore (π : Type) where
  outputSlots : FinMap ℤ (ItemProgress π)
  outputAliases : ItemIdentity → Option (Finset ℤ)
  outputPending : Finset ℤ

structure StreamAssemblyState (π : Type) where
  lifecycleResponse : Option (Response π)
  outputItems : OutputItemStore π

def emptyOutputItemStore : OutputItemStore π := ⟨.empty, fun _ => none, ∅⟩

def emptyStreamAssemblyState : StreamAssemblyState π := ⟨none, emptyOutputItemStore⟩

def minimumIndex (indexes : Finset ℤ) : Option ℤ := FinMap.least indexes

def addItemAliases (index : ℤ) (item : ResponseItem π)
    (aliases : ItemIdentity → Option (Finset ℤ)) : ItemIdentity → Option (Finset ℤ) :=
  -- an item may carry an identity twice
  (itemAliases item).foldl (fun current identity => Function.update current identity
    (some (match current identity with
      | none => {index}
      | some indexes => {index} ∪ indexes))) aliases

def removeItemAliases (index : ℤ) (item : ResponseItem π)
    (aliases : ItemIdentity → Option (Finset ℤ)) : ItemIdentity → Option (Finset ℤ) :=
  (itemAliases item).foldl (fun current identity => Function.update current identity
    ((current identity).bind fun indexes =>
      let remaining := indexes.erase index
      if remaining = ∅ then none else some remaining)) aliases

def aliasesWithoutOld (index : ℤ) (store : OutputItemStore π) : ItemIdentity → Option (Finset ℤ) :=
  match store.outputSlots.lookup index with
  | none => store.outputAliases
  | some old => removeItemAliases index old.itemValue store.outputAliases

/-- The only mutation of the store. -/
def setOutputSlot (index : ℤ) (progress : ItemProgress π) (store : OutputItemStore π) :
    OutputItemStore π :=
  { outputSlots := store.outputSlots.insert index progress
    -- the aliases of the old item go before those of the new one come
    outputAliases := addItemAliases index progress.itemValue (aliasesWithoutOld index store)
    outputPending := if progress.itemDone then store.outputPending.erase index
      else insert index store.outputPending }

def adjustOutputProgress (index : ℤ) (update : ItemProgress π → ItemProgress π)
    (store : OutputItemStore π) : OutputItemStore π :=
  match store.outputSlots.lookup index with
  | none => store
  | some progress => setOutputSlot index (update progress) store

def nextOutputIndex (store : OutputItemStore π) : ℤ :=
  match store.outputSlots.lastKey with
  | none => 0
  | some index => wrapInt (index + 1)

/-- The slot of the first of the identities that has one. -/
def findIdentityIndex (identities : List (Option ItemIdentity)) (state : StreamAssemblyState π) :
    Option ℤ :=
  (identities.reduceOption).findSome? fun identity =>
    (state.outputItems.outputAliases identity).bind minimumIndex

def findItemIndex (item : ResponseItem π) (state : StreamAssemblyState π) : Option ℤ :=
  findIdentityIndex ((itemAliases item).map some) state

def findPendingIndex (state : StreamAssemblyState π) : Option ℤ :=
  minimumIndex state.outputItems.outputPending

/-! ### The effect of an event -/

def updateItem (explicitIndex : Option ℤ) (done : Bool) (item : ResponseItem π)
    (state : StreamAssemblyState π) : StreamAssemblyState π :=
  -- its index, a slot with one of its identities, a pending slot if it is done, or a new slot
  let index := (explicitIndex <|> findItemIndex item state <|>
    if done then findPendingIndex state else none).getD (nextOutputIndex state.outputItems)
  let progress := itemProgress done item (state.outputItems.outputSlots.lookup index)
  { state with outputItems := setOutputSlot index progress state.outputItems }

def updateResolvedProgress (explicitIndex : Option ℤ) (identities : List (Option ItemIdentity))
    (update : ItemProgress π → ItemProgress π) (state : StreamAssemblyState π) :
    StreamAssemblyState π :=
  -- a delta for no slot is dropped
  match explicitIndex <|> findIdentityIndex identities state with
  | none => state
  | some index =>
      { state with outputItems := adjustOutputProgress index update state.outputItems }

def mergeLifecycleResponse (response : Response π) (state : StreamAssemblyState π) :
    StreamAssemblyState π :=
  { state with lifecycleResponse := some (match state.lifecycleResponse with
      | none => response
      | some base => mergeResponseFragment base response) }

def applyStreamEvent (state : StreamAssemblyState π) :
    ResponseStreamEvent π → StreamAssemblyState π
  | .responseCreatedEvent responseValue _ => mergeLifecycleResponse responseValue state
  | .responseInProgressEvent responseValue _ => mergeLifecycleResponse responseValue state
  | .responseQueuedEvent responseValue _ => mergeLifecycleResponse responseValue state
  | .responseCompletedEvent responseValue _ => mergeLifecycleResponse responseValue state
  | .responseDoneEvent responseValue _ => mergeLifecycleResponse responseValue state
  | .responseFailedEvent responseValue _ => mergeLifecycleResponse responseValue state
  | .responseIncompleteEvent responseValue _ => mergeLifecycleResponse responseValue state
  | .responseOutputItemAddedEvent item outputIndex _ => updateItem outputIndex false item state
  | .responseOutputItemDoneEvent item outputIndex _ => updateItem outputIndex true item state
  | .responseFunctionCallArgumentsDeltaEvent (some value) streamItemId streamOutputIndex _ =>
      updateResolvedProgress streamOutputIndex
        [streamItemIdentity "function_call".toList streamItemId] (functionArgumentDelta value) state
  | .responseFunctionCallArgumentsDoneEvent arguments functionName streamItemId
      streamOutputIndex _ =>
      updateResolvedProgress streamOutputIndex
        [streamItemIdentity "function_call".toList streamItemId]
        (functionArgumentDone arguments functionName streamItemId) state
  | .responseCustomToolInputDeltaEvent (some value) streamItemId streamCallId streamOutputIndex _ =>
      updateResolvedProgress streamOutputIndex
        [streamItemIdentity "custom_tool_call".toList streamItemId,
          streamCallIdentity "custom_tool_call".toList streamCallId]
        (customToolInputDelta value) state
  | .responseCustomToolInputDoneEvent inputText streamItemId streamCallId streamOutputIndex _ =>
      updateResolvedProgress streamOutputIndex
        [streamItemIdentity "custom_tool_call".toList streamItemId,
          streamCallIdentity "custom_tool_call".toList streamCallId]
        (customToolInputDone inputText streamItemId streamCallId) state
  | .responseReasoningSummaryTextDoneEvent streamItemId streamOutputIndex (some index) (some value)
      _ =>
      updateResolvedProgress streamOutputIndex
        [streamItemIdentity "reasoning".toList streamItemId]
        (reasoningSummaryDone value streamItemId index) state
  | .otherResponseStreamEvent .reasoningSummaryTextDelta _ (some value) streamItemId
      streamOutputIndex (some index) _ =>
      updateResolvedProgress streamOutputIndex
        [streamItemIdentity "reasoning".toList streamItemId]
        (reasoningSummaryDelta value index) state
  | _ => state

/-! ### The stream -/

structure ResponseFailure (π : Type) where
  failureStatus : Option Text
  failureErrorType : Option Text
  failureErrorCode : Option Text
  failureErrorMessage : Option Text
  failureIncompleteDetails : Option IncompleteDetails
  failureResponseValue : Option (Response π)

structure StreamAssemblyConfig (π η : Type) where
  missingCompletionMessage : Text
  classifyStreamError : ResponseStreamError → η
  classifyFailedResponse : ResponseFailure π → η
  incompleteAsFailure : Bool

inductive StreamAssemblyStep (π η : Type)
  | streamContinue (state : StreamAssemblyState π)
  | streamFinished (result : Except η (Response π))

def statusText : ResponseStatus → Text
  | .responseCompleted => "completed".toList
  | .responseFailed => "failed".toList
  | .responseInProgress => "in_progress".toList
  | .responseCancelled => "cancelled".toList
  | .responseQueued => "queued".toList
  | .responseIncomplete => "incomplete".toList
  | .responseStatusUnknown value => value

def responseFailure (response : Response π) : ResponseFailure π where
  failureStatus := some (statusText response.status)
  failureErrorType := none
  failureErrorCode := response.error.map (·.code)
  failureErrorMessage := response.error.map (·.message)
  failureIncompleteDetails := response.incompleteDetails
  failureResponseValue := some response

def emptyFailure : ResponseFailure π := ⟨none, none, none, none, none, none⟩

def responseFailureFromState (state : StreamAssemblyState π) : ResponseFailure π :=
  match state.lifecycleResponse with
  | none => emptyFailure
  | some response => responseFailure response

def setResponseStatus (value : ResponseStatus) (response : Response π) : Response π :=
  { response with status := value }

def setResponseModel (value : Text) (response : Response π) : Response π :=
  { response with model := value }

def setResponseOutput (value : List (ResponseItem π)) (response : Response π) : Response π :=
  { response with output := value }

/-- The output of the terminal response by position, and the slots over it. -/
def assembledItems (terminal : Response π) (state : StreamAssemblyState π) :
    FinMap ℤ (ResponseItem π) :=
  let finalItems := FinMap.ofList
    (terminal.output.zipIdx.map fun entry => ((entry.2 : ℤ), entry.1))
  finalItems.unionWith mergeResponseItem
    (state.outputItems.outputSlots.map materializeItemProgress)

def assembledTerminalOutput (terminal : Response π) (state : StreamAssemblyState π) :
    List (ResponseItem π) :=
  (assembledItems terminal state).elems

section Stream

variable {η : Type} (jsonDecodeError : Text → Text → η) (showEvent : ResponseStreamEvent π → Text)

/-- The response of a terminal event. -/
def terminalResponse : ResponseStreamEvent π → Option (Response π)
  | .responseCompletedEvent responseValue _ =>
      some (setResponseStatus .responseCompleted responseValue)
  | .responseDoneEvent responseValue _ =>
      some (setResponseStatus (if responseValue.status = .responseInProgress then .responseCompleted
        else responseValue.status) responseValue)
  | .responseIncompleteEvent responseValue _ =>
      some (setResponseStatus .responseIncomplete responseValue)
  | .responseFailedEvent responseValue _ => some (setResponseStatus .responseFailed responseValue)
  | _ => none

def finishStreamResponse (modelHint : Option Text) (state : StreamAssemblyState π)
    (terminalEvent : ResponseStreamEvent π) : Except η (Response π) :=
  match terminalResponse terminalEvent with
  | none => .error (jsonDecodeError "Cannot assemble a non-terminal response event".toList
      (showEvent terminalEvent))
  | some terminal =>
      let terminalWithOutput := setResponseOutput (assembledTerminalOutput terminal state) terminal
      -- the slots are in the output already, so no streamed items are merged
      let response := mergeDoneResponse state.lifecycleResponse [] terminalWithOutput
      let withModel := if response.model.isEmpty then setResponseModel (modelHint.getD []) response
        else response
      if withModel.responseId.isEmpty then
        .error (jsonDecodeError "Streamed response did not contain a response id".toList
          (showEvent terminalEvent))
      else .ok withModel

def stepStreamResponse (config : StreamAssemblyConfig π η) (modelHint : Option Text)
    (state : StreamAssemblyState π) (event : ResponseStreamEvent π) : StreamAssemblyStep π η :=
  -- a terminal event is applied before the response is put together
  let next := applyStreamEvent state event
  match event with
  | .responseCompletedEvent _ _ =>
      .streamFinished (finishStreamResponse jsonDecodeError showEvent modelHint next event)
  | .responseDoneEvent _ _ =>
      .streamFinished (finishStreamResponse jsonDecodeError showEvent modelHint next event)
  | .responseIncompleteEvent responseValue _ =>
      if config.incompleteAsFailure then
        .streamFinished (.error (config.classifyFailedResponse
          (responseFailure (setResponseStatus .responseIncomplete responseValue))))
      else .streamFinished (finishStreamResponse jsonDecodeError showEvent modelHint next event)
  | .responseFailedEvent _ _ =>
      .streamFinished (.error (config.classifyFailedResponse (responseFailureFromState next)))
  | .responseErrorEvent streamError _ =>
      .streamFinished (.error (config.classifyStreamError streamError))
  | .responseNestedErrorEvent streamError _ =>
      .streamFinished (.error (config.classifyStreamError streamError))
  | _ => .streamContinue next

def finishStreamWithoutTerminal (config : StreamAssemblyConfig π η)
    (state : StreamAssemblyState π) : Except η (Response π) :=
  match state.lifecycleResponse with
  | some response =>
      if response.status ∈ [.responseFailed, .responseIncomplete] then
        .error (config.classifyFailedResponse (responseFailure response))
      else .error (jsonDecodeError config.missingCompletionMessage [])
  | none => .error (jsonDecodeError config.missingCompletionMessage [])

/-- The loop of `buildStreamResponseWithModel`. -/
def buildFrom (config : StreamAssemblyConfig π η) (modelHint : Option Text) :
    StreamAssemblyState π → List (ResponseStreamEvent π) → Except η (Response π)
  | state, [] => finishStreamWithoutTerminal jsonDecodeError config state
  | state, event :: rest =>
      match stepStreamResponse jsonDecodeError showEvent config modelHint state event with
      | .streamContinue next => buildFrom config modelHint next rest
      | .streamFinished result => result

def buildStreamResponseWithModel (config : StreamAssemblyConfig π η) (modelHint : Option Text)
    (events : List (ResponseStreamEvent π)) : Except η (Response π) :=
  buildFrom jsonDecodeError showEvent config modelHint emptyStreamAssemblyState events

end Stream

end HaskellAgent.Responses
