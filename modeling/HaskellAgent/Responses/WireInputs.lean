import HaskellAgent.Responses.WireItems

/-!
# Tool calls and tool results as items

How a response item announces a tool call, how a result answers it, and how the inputs of a turn
enter the conversation.

What the JSON library and the name tables of other harnesses decide is a parameter,
`WireEncoding`.
-/

open List

namespace HaskellAgent.Wire

/-- What the JSON library and the name tables contribute. -/
structure WireEncoding extends ItemEncoding where
  /-- A computer call, as JSON. -/
  encodeComputerCall : ComputerCall → Text
  /-- The name of a tool without the prefixes other harnesses give it. -/
  canonicalToolName : Text → Text
  /-- A user attachment, as a content part with a data URL. -/
  attachmentPart : TurnAttachment → ResponseContentPart

/-! ### Tool calls -/

def computerFunctionNamespace : Text := "computer_use".toList

def computerFunctionName : Text := "computer_use".toList

def legacyComputerFunctionName : Text := "computer".toList

def isLegacyComputerFunctionCall (call : FunctionCall) : Bool :=
  call.name == legacyComputerFunctionName && call.callNamespace == some computerFunctionNamespace

def isComputerFunctionCall (call : FunctionCall) : Bool :=
  (call.name == computerFunctionName &&
      (call.callNamespace == none || call.callNamespace == some "functions".toList)) ||
    isLegacyComputerFunctionCall call

def namespacedToolName (callNamespace : Option Text) (name : Text) : Text :=
  match callNamespace with
  | some value =>
      if value.isEmpty then name
      else if ['.'].isSuffixOf value || [':', ':'].isSuffixOf value then value ++ name
      else value ++ ['.'] ++ name
  | none => name

def callModeFromField : Option Bool → ToolCallMode
  | some true => .async
  | _ => .blocking

def isSensitiveComputerAction : ComputerAction → Bool
  | .type _ => true
  | .keypress _ => true
  | _ => false

section Calls

variable (enc : WireEncoding)

def encryptedCollaborationArguments (toolName : Text)
    (encryptedFunctionArgs : Option (List Text)) : Bool :=
  ["spawn_agent".toList, "send_message".toList, "followup_task".toList].contains
      (enc.canonicalToolName toolName) &&
    encryptedFunctionArgs != some []

def responseItemToToolCall : ResponseItem → Option ToolCall
  | .functionCallItem call =>
      if isComputerFunctionCall call then some
        { callId := call.callId
          name := "computer".toList
          arguments := call.arguments
          callKind := .computerFunctionCall
          -- input of the desktop may contain typed secrets
          argumentsEncrypted := true
          mode := callModeFromField call.async }
      else
        let toolName := namespacedToolName call.callNamespace call.name
        some
          { callId := call.callId
            name := toolName
            arguments := call.arguments
            callKind := .functionCall
            argumentsEncrypted :=
              encryptedCollaborationArguments enc toolName call.encryptedFunctionArgs
            mode := callModeFromField call.async }
  | .customToolCallItem call => some
      { callId := call.callId
        name := namespacedToolName call.callNamespace call.name
        arguments := call.input
        callKind := .customCall
        argumentsEncrypted := false
        mode := callModeFromField call.async }
  | .computerCallItem call => some
      { callId := call.computerCallId
        name := "computer".toList
        arguments := enc.encodeComputerCall call
        callKind := .computerCall
        argumentsEncrypted := call.computerActions.any isSensitiveComputerAction
        mode := .blocking }
  | _ => none

/-- The calls among items. -/
def toolCalls (items : List ResponseItem) : List ToolCall :=
  items.filterMap (responseItemToToolCall enc)

/-- The ids of the calls among items. -/
def callIds (items : List ResponseItem) : List Text := (toolCalls enc items).map (·.callId)

@[simp] theorem callIds_append (xs ys : List ResponseItem) :
    callIds enc (xs ++ ys) = callIds enc xs ++ callIds enc ys := by
  simp [callIds, toolCalls]

theorem mem_callIds {items : List ResponseItem} {id : Text} :
    id ∈ callIds enc items ↔
      ∃ item ∈ items, ∃ call, responseItemToToolCall enc item = some call ∧ call.callId = id := by
  simp only [callIds, toolCalls, List.mem_map, mem_filterMap]
  constructor
  · rintro ⟨call, ⟨item, hitem, hcall⟩, hid⟩
    exact ⟨item, hitem, call, hcall, hid⟩
  · rintro ⟨item, hitem, call, hcall, hid⟩
    exact ⟨call, ⟨item, hitem, hcall⟩, hid⟩

/-- No item announces a client-executed tool search as a tool call. -/
theorem callKind_responseItemToToolCall {item : ResponseItem} {call : ToolCall}
    (h : responseItemToToolCall enc item = some call) : call.callKind ≠ .toolSearchCall := by
  cases item with
  | functionCallItem call =>
    simp only [responseItemToToolCall] at h
    split at h
    · cases h
      simp
    · cases h
      simp
  | customToolCallItem call | computerCallItem call =>
    cases h
    simp
  | _ => cases h

end Calls

/-! ### Outputs -/

def outputCallId : ResponseItem → List Text
  | .functionCallOutputItem output => [output.callId]
  | .customToolCallOutputItem output => [output.callId]
  | .computerCallOutputItem output => [output.computerOutputCallId]
  | _ => []

/-- The ids of the calls that items answer. -/
def answeredIds (items : List ResponseItem) : List Text := items.flatMap outputCallId

@[simp] theorem answeredIds_append (xs ys : List ResponseItem) :
    answeredIds (xs ++ ys) = answeredIds xs ++ answeredIds ys := flatMap_append

/-! ### Inputs as items -/

def messageTypeText : InterAgentMessageType → Text
  | .newTask => "NEW_TASK".toList
  | .queued => "MESSAGE".toList
  | .followUp => "FOLLOW_UP".toList

def renderInterAgentMessageHeader (message : InterAgentMessage) : Text :=
  let taskLine :=
    match message.messageType with
    | .newTask => ["Task name: ".toList ++ message.messageRecipient]
    | .queued => []
    | .followUp => []
  (["Message Type: ".toList ++ messageTypeText message.messageType] ++ taskLine
    ++ ["Sender: ".toList ++ message.messageAuthor, "Payload:".toList]).flatMap (· ++ ['\n'])

def renderInterAgentMessage (message : InterAgentMessage) : Text :=
  renderInterAgentMessageHeader message ++ interAgentMessagePayload message

def agentMessageContent (message : InterAgentMessage) : List ResponseContentPart :=
  match message.messageContent with
  | .plain _ => [.inputText (renderInterAgentMessage message) none]
  | .encrypted encrypted =>
      [.inputText (renderInterAgentMessageHeader message) none, .encryptedContent encrypted]

def agentMessageItem (message : InterAgentMessage) : ResponseItem :=
  .agentMessageItem
    { messageId := none
      author := some message.messageAuthor
      recipient := some message.messageRecipient
      content := agentMessageContent message
      passthrough := none
      localMetadata := message.messageMetadata }

def userMessageItem (text : Text) : ResponseItem :=
  .messageItem
    { messageId := none
      content := .parts [.inputText text none]
      role := .user
      status := none
      phase := none
      passthrough := none }

/-- The marker tells host evidence from output of the model. -/
def recoveryMessageItem (text : Text) : ResponseItem :=
  .messageItem
    { messageId := none
      content := .parts [.outputText text none none]
      role := .assistant
      status := none
      phase := none
      passthrough := some
        { turnId := none
          createTime := none
          contentItemKinds := some [recoveryContextContentItemKind]
          executedToolCalls := none } }

def computerScreenshotObservationWith (observationText screenshotDataUrl : Text) : ResponseItem :=
  .messageItem
    { messageId := none
      content := .parts
        [.inputText observationText none,
          .inputImage (some "auto".toList) none (some screenshotDataUrl) none]
      role := .user
      status := none
      phase := none
      passthrough := none }

def computerScreenshotObservation (screenshotDataUrl : Text) : ResponseItem :=
  computerScreenshotObservationWith
    "Current macOS desktop after the completed computer action:".toList screenshotDataUrl

section Inputs

variable (enc : WireEncoding)

def userMessageWithAttachmentsItem (text : Text) (attachments : List TurnAttachment) :
    ResponseItem :=
  .messageItem
    { messageId := none
      content := .parts (.inputText text none :: attachments.map enc.attachmentPart)
      role := .user
      status := none
      phase := none
      passthrough := none }

/-- The output item of a function call. -/
def functionOutput (result : ToolCallResult) (output : Text) (async : Option Bool) :
    ResponseItem :=
  .functionCallOutputItem
    { itemId := none
      callId := result.callId
      name := none
      callNamespace := none
      provider := none
      output := ⟨output⟩
      status := none
      async
      localOutcome := result.toolResultOutcome }

def toolResultToItem (result : ToolCallResult) : ResponseItem :=
  match result.callKind with
  | .functionCall =>
      functionOutput result (toolResultOutput enc.toItemEncoding result) (asyncResultField result)
  | .customCall => .customToolCallOutputItem
      { itemId := none
        callId := result.callId
        name := none
        output := ⟨toolResultOutput enc.toItemEncoding result⟩
        status := none
        async := asyncResultField result
        localOutcome := result.toolResultOutcome }
  | .computerCall | .computerFunctionCall =>
      functionOutput result (computerFunctionToolResultOutput enc.toItemEncoding result) none
  | .toolSearchCall => .toolSearchOutputItem
      { itemId := none
        callId := some result.callId
        status := some "completed".toList
        execution := some "client".toList
        tools := (enc.toolSearchOutputTools result).map RawJson.mk }

def turnInputToItem : TurnInput → ResponseItem
  | .userMessage text => userMessageItem text
  | .recoveryMessage text => recoveryMessageItem text
  | .agentMessage message => agentMessageItem message
  | .userMessageWithAttachments text attachments =>
      userMessageWithAttachmentsItem enc text attachments
  | .completedTool result => toolResultToItem enc result

def turnInputsToItems (inputs : List TurnInput) : List ResponseItem :=
  inputs.map (turnInputToItem enc) ++
    (latestComputerScreenshot enc.toItemEncoding inputs).toList.map computerScreenshotObservation

@[simp] theorem callIds_map_toolResultToItem (results : List ToolCallResult) :
    callIds enc (results.map (toolResultToItem enc)) = [] := by
  induction results with
  | nil => rfl
  | cons result rest ih =>
    have hnone : responseItemToToolCall enc (toolResultToItem enc result) = none := by
      unfold toolResultToItem
      cases result.callKind <;> rfl
    rw [map_cons, callIds, toolCalls, filterMap_cons_none hnone]
    exact ih

/-- The item of a result answers the call of the result. -/
theorem outputCallId_toolResultToItem {result : ToolCallResult}
    (hkind : result.callKind ≠ .toolSearchCall) :
    outputCallId (toolResultToItem enc result) = [result.callId] := by
  unfold toolResultToItem
  cases h : result.callKind with
  | toolSearchCall => exact absurd h hkind
  | _ => rfl

theorem answeredIds_map_toolResultToItem {results : List ToolCallResult}
    (hkind : ∀ result ∈ results, result.callKind ≠ .toolSearchCall) :
    answeredIds (results.map (toolResultToItem enc)) = results.map (·.callId) := by
  induction results with
  | nil => rfl
  | cons result rest ih =>
    have hhead := outputCallId_toolResultToItem enc (hkind result mem_cons_self)
    have htail := ih fun other hother => hkind other (mem_cons_of_mem _ hother)
    rw [map_cons, answeredIds, flatMap_cons, hhead, ← answeredIds, htail]
    rfl

end Inputs

end HaskellAgent.Wire
