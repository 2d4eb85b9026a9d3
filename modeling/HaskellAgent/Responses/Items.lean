import HaskellAgent.Lib.FinMap
import HaskellAgent.Loop.Input
import Mathlib.Data.Int.Init

/-!
# Items of a response and their progress

The items a provider streams, how a later version of an item is merged into an earlier one, and the
progress of an item whose text is still arriving: its value, whether it is done, and the buffered
chunks of its arguments, its input or the parts of its reasoning summary.

The values that stream assembly only passes on have an arbitrary type.  A machine integer is an
integer whose arithmetic wraps around at 64 bits.  A part of a reasoning summary is `none` where
evaluating it fails, which is what an index out of bounds leaves behind.
-/

namespace HaskellAgent.Responses

/-- The arithmetic of 64-bit machine integers. -/
def wrapInt (i : ℤ) : ℤ := i.bmod (2 ^ 64)

/-! ### Items -/

structure FunctionCall (π : Type) where
  itemId : Option Text
  callId : Text
  name : Text
  callNamespace : Option Text
  provider : Option Text
  arguments : Text
  encryptedFunctionArgs : Option (List Text)
  status : Option π
  async : Option Bool

structure CustomToolCall (π : Type) where
  itemId : Option Text
  callId : Text
  name : Text
  callNamespace : Option Text
  input : Text
  status : Option π
  async : Option Bool

structure ReasoningSummaryPart where
  partType : Text
  text : Option Text

structure ReasoningItem (π : Type) where
  itemId : Option Text
  summary : List (Option ReasoningSummaryPart)
  content : Option π
  encryptedContent : Option Text
  status : Option π

/-- The items of a response: their identities, and a value for the rest of those that assembly does
not look into. -/
inductive ResponseItem (π : Type)
  | messageItem (messageId : Option Text) (value : π)
  | functionCallItem (call : FunctionCall π)
  | functionCallOutputItem (itemId : Option Text) (callId : Text) (value : π)
  | customToolCallItem (call : CustomToolCall π)
  | customToolCallOutputItem (itemId : Option Text) (callId : Text) (value : π)
  | computerCallItem (computerCallItemId : Option Text) (computerCallId : Text) (value : π)
  | computerCallOutputItem (computerOutputItemId : Option Text) (computerOutputCallId : Text)
      (value : π)
  | reasoningItemValue (reasoning : ReasoningItem π)
  | itemReferenceValue (itemId : Text)
  | agentMessageItem (messageId : Option Text) (value : π)
  | additionalToolsItemValue (itemId : Option Text) (value : π)
  | localShellCallItem (itemId callId : Option Text) (value : π)
  | toolSearchCallItem (itemId callId : Option Text) (value : π)
  | toolSearchOutputItem (itemId callId : Option Text) (value : π)
  | webSearchCallItem (itemId : Option Text) (value : π)
  | imageGenerationCallItem (itemId : Option Text) (value : π)
  | compactionItemValue (itemId : Option Text) (value : π)
  | compactionTriggerItemValue (value : π)
  | contextCompactionItemValue (itemId : Option Text) (value : π)
  | knownResponseItem (itemType : Text) (value : π)
  | unknownResponseItem (tag : Text) (value : π)

variable {π : Type}

def optionalIdentity (field : Text) (value : Option Text) : List (Text × Text) :=
  value.toList.map fun text => (field, text)

def responseItemIdentities : ResponseItem π → List (Text × Text)
  | .messageItem messageId _ => optionalIdentity "id".toList messageId
  | .functionCallItem call =>
      optionalIdentity "id".toList call.itemId ++ [("call_id".toList, call.callId)]
  | .functionCallOutputItem itemId callId _ =>
      optionalIdentity "id".toList itemId ++ [("call_id".toList, callId)]
  | .customToolCallItem call =>
      optionalIdentity "id".toList call.itemId ++ [("call_id".toList, call.callId)]
  | .customToolCallOutputItem itemId callId _ =>
      optionalIdentity "id".toList itemId ++ [("call_id".toList, callId)]
  | .computerCallItem itemId callId _ =>
      optionalIdentity "id".toList itemId ++ [("call_id".toList, callId)]
  | .computerCallOutputItem itemId callId _ =>
      optionalIdentity "id".toList itemId ++ [("call_id".toList, callId)]
  | .reasoningItemValue reasoning => optionalIdentity "id".toList reasoning.itemId
  | .itemReferenceValue itemId => [("id".toList, itemId)]
  | .agentMessageItem messageId _ => optionalIdentity "id".toList messageId
  | .additionalToolsItemValue itemId _ => optionalIdentity "id".toList itemId
  | .localShellCallItem itemId callId _ =>
      optionalIdentity "id".toList itemId ++ optionalIdentity "call_id".toList callId
  | .toolSearchCallItem itemId callId _ =>
      optionalIdentity "id".toList itemId ++ optionalIdentity "call_id".toList callId
  | .toolSearchOutputItem itemId callId _ =>
      optionalIdentity "id".toList itemId ++ optionalIdentity "call_id".toList callId
  | .webSearchCallItem itemId _ => optionalIdentity "id".toList itemId
  | .imageGenerationCallItem itemId _ => optionalIdentity "id".toList itemId
  | .compactionItemValue itemId _ => optionalIdentity "id".toList itemId
  | .compactionTriggerItemValue _ => []
  | .contextCompactionItemValue itemId _ => optionalIdentity "id".toList itemId
  | .knownResponseItem _ _ => []
  | .unknownResponseItem _ _ => []

def responseItemKind : ResponseItem π → Text
  | .messageItem _ _ => "message".toList
  | .functionCallItem _ => "function_call".toList
  | .functionCallOutputItem _ _ _ => "function_call_output".toList
  | .customToolCallItem _ => "custom_tool_call".toList
  | .customToolCallOutputItem _ _ _ => "custom_tool_call_output".toList
  | .computerCallItem _ _ _ => "computer_call".toList
  | .computerCallOutputItem _ _ _ => "computer_call_output".toList
  | .reasoningItemValue _ => "reasoning".toList
  | .itemReferenceValue _ => "item_reference".toList
  | .agentMessageItem _ _ => "agent_message".toList
  | .additionalToolsItemValue _ _ => "additional_tools".toList
  | .localShellCallItem _ _ _ => "local_shell_call".toList
  | .toolSearchCallItem _ _ _ => "tool_search_call".toList
  | .toolSearchOutputItem _ _ _ => "tool_search_output".toList
  | .webSearchCallItem _ _ => "web_search_call".toList
  | .imageGenerationCallItem _ _ => "image_generation_call".toList
  | .compactionItemValue _ _ => "compaction".toList
  | .compactionTriggerItemValue _ => "compaction_trigger".toList
  | .contextCompactionItemValue _ _ => "context_compaction".toList
  | .knownResponseItem itemType _ => itemType
  | .unknownResponseItem tag _ => tag

/-- Provider item ids and tool call ids are kept apart, and so are the kinds of items. -/
inductive ItemIdentity
  | providerItemId (kind value : Text)
  | toolCallId (kind value : Text)
  deriving DecidableEq

def itemIdentity (kind field value : Text) : Option ItemIdentity :=
  if value.isEmpty then none
  else if field = "id".toList then some (.providerItemId kind value)
  else if field = "call_id".toList then some (.toolCallId kind value)
  else none

/-- The identities of an item, its id before its call id. -/
def itemAliases (item : ResponseItem π) : List ItemIdentity :=
  (responseItemIdentities item).filterMap fun identity =>
    itemIdentity (responseItemKind item) identity.1 identity.2

def nonEmpty (value : Option Text) : Option Text := value.filter fun text => !text.isEmpty

def streamItemIdentity (kind : Text) (value : Option Text) : Option ItemIdentity :=
  (nonEmpty value).map (.providerItemId kind)

def streamCallIdentity (kind : Text) (value : Option Text) : Option ItemIdentity :=
  (nonEmpty value).map (.toolCallId kind)

/-! ### Later versions of an item -/

def mergeFunctionCall (previous next : FunctionCall π) : FunctionCall π :=
  { next with
    itemId := next.itemId <|> previous.itemId
    callNamespace := next.callNamespace <|> previous.callNamespace
    status := next.status <|> previous.status
    async := next.async <|> previous.async }

def mergeCustomToolCall (previous next : CustomToolCall π) : CustomToolCall π :=
  { next with
    itemId := next.itemId <|> previous.itemId
    callNamespace := next.callNamespace <|> previous.callNamespace
    status := next.status <|> previous.status
    async := next.async <|> previous.async }

def mergeResponseItem (old new : ResponseItem π) : ResponseItem π :=
  match old, new with
  | .functionCallItem previous, .functionCallItem next =>
      .functionCallItem (mergeFunctionCall previous next)
  | .customToolCallItem previous, .customToolCallItem next =>
      .customToolCallItem (mergeCustomToolCall previous next)
  | _, new => new

def setFunctionArguments (value : Text) (call : FunctionCall π) : FunctionCall π :=
  { call with arguments := value }

def setCustomToolInput (value : Text) (call : CustomToolCall π) : CustomToolCall π :=
  { call with input := value }

def setReasoningSummary (value : List (Option ReasoningSummaryPart)) (reasoning : ReasoningItem π) :
    ReasoningItem π :=
  { reasoning with summary := value }

def setReasoningPartText (value : Option Text) (part : ReasoningSummaryPart) :
    ReasoningSummaryPart :=
  { part with text := value }

def mapFunctionCall (itemId : Option Text) (update : FunctionCall π → FunctionCall π) :
    ResponseItem π → ResponseItem π
  | .functionCallItem call => .functionCallItem (update call)
  -- an item of another kind becomes a call with the id, if there is one
  | item =>
      match itemId with
      | none => item
      | some identifier => .functionCallItem (update
          { itemId := some identifier
            callId := identifier
            name := []
            callNamespace := none
            provider := none
            arguments := []
            encryptedFunctionArgs := none
            status := none
            async := none })

def mapCustomCall (itemId callId : Option Text) (update : CustomToolCall π → CustomToolCall π) :
    ResponseItem π → ResponseItem π
  | .customToolCallItem call => .customToolCallItem (update call)
  | item =>
      match callId <|> itemId with
      | none => item
      | some identifier => .customToolCallItem (update
          { itemId
            callId := identifier
            name := []
            callNamespace := none
            input := []
            status := none
            async := none })

/-- The element at an index; `none` where there is none. -/
def elementAt {α : Type} (values : List (Option α)) (index : ℤ) : Option α :=
  if index < 0 then none else (values[index.toNat]?).join

def updateAt (index : ℤ) (update : ReasoningSummaryPart → ReasoningSummaryPart)
    (values : List (Option ReasoningSummaryPart)) : List (Option ReasoningSummaryPart) :=
  -- parts up to the index are filled in
  let emptyPart : ReasoningSummaryPart := ⟨"summary_text".toList, none⟩
  let padded := values
    ++ List.replicate (max 0 (wrapInt (wrapInt (index + 1) - values.length))).toNat (some emptyPart)
  padded.take index.toNat ++ [(elementAt padded index).map update]
    ++ padded.drop (wrapInt (index + 1)).toNat

def mapReasoning (itemId : Option Text) (index : ℤ)
    (update : ReasoningSummaryPart → ReasoningSummaryPart) : ResponseItem π → ResponseItem π
  | .reasoningItemValue reasoning =>
      .reasoningItemValue (setReasoningSummary (updateAt index update reasoning.summary) reasoning)
  | item =>
      match itemId with
      | none => item
      | some identifier => .reasoningItemValue
          { itemId := some identifier
            summary := updateAt index update []
            content := none
            encryptedContent := none
            status := none }

/-! ### Progress -/

structure ItemProgress (π : Type) where
  itemValue : ResponseItem π
  itemDone : Bool
  functionArgumentChunks : Option TextBuffer
  customInputChunks : Option TextBuffer
  reasoningTextChunks : FinMap ℤ TextBuffer

def materializeFunction (progress : ItemProgress π) : ResponseItem π → ResponseItem π :=
  match progress.functionArgumentChunks with
  | none => id
  | some chunks => mapFunctionCall none fun call =>
      setFunctionArguments (call.arguments ++ textBufferToText chunks) call

def materializeCustom (progress : ItemProgress π) : ResponseItem π → ResponseItem π :=
  match progress.customInputChunks with
  | none => id
  | some chunks => mapCustomCall none none fun call =>
      setCustomToolInput (call.input ++ textBufferToText chunks) call

def materializeReasoning (progress : ItemProgress π) (item : ResponseItem π) : ResponseItem π :=
  progress.reasoningTextChunks.foldlWithKey (fun current index chunks =>
    mapReasoning none index
      (fun part => setReasoningPartText (some (part.text.getD [] ++ textBufferToText chunks)) part)
      current) item

/-- The item with its buffered chunks. -/
def materializeItemProgress (progress : ItemProgress π) : ResponseItem π :=
  materializeReasoning progress (materializeCustom progress
    (materializeFunction progress progress.itemValue))

def materializedFunctionArguments (progress : ItemProgress π) : Text :=
  match materializeItemProgress progress with
  | .functionCallItem call => call.arguments
  | _ => []

def materializedCustomInput (progress : ItemProgress π) : Text :=
  match materializeItemProgress progress with
  | .customToolCallItem call => call.input
  | _ => []

def materializedReasoningSummary (progress : ItemProgress π) :
    List (Option ReasoningSummaryPart) :=
  match materializeItemProgress progress with
  | .reasoningItemValue reasoning => reasoning.summary
  | _ => []

/-- One part of two summaries; a field the next part lacks is read off the previous one. -/
def mergeSummaryPart (previous next : Option ReasoningSummaryPart) :
    Option ReasoningSummaryPart := do
  let part ← next
  let partType ← if part.partType.isEmpty then previous.map (·.partType) else some part.partType
  let text ← match nonEmpty part.text with
    | some value => some (some value)
    | none => previous.map (·.text)
  pure ⟨partType, text⟩

def mergeReasoningSummary :
    List (Option ReasoningSummaryPart) → List (Option ReasoningSummaryPart) →
      List (Option ReasoningSummaryPart)
  | previous :: previousRest, next :: nextRest =>
      mergeSummaryPart previous next :: mergeReasoningSummary previousRest nextRest
  | previous, [] => previous
  | [], next => next

/-- A finished item keeps the chunks buffered for it where it has no text of its own. -/
def preserveBufferedProgress (progress : ItemProgress π) (item : ResponseItem π) :
    ResponseItem π :=
  match item with
  | .functionCallItem call =>
      if progress.functionArgumentChunks.isSome && call.arguments.isEmpty then
        .functionCallItem (setFunctionArguments (materializedFunctionArguments progress) call)
      else item
  | .customToolCallItem call =>
      if progress.customInputChunks.isSome && call.input.isEmpty then
        .customToolCallItem (setCustomToolInput (materializedCustomInput progress) call)
      else item
  | .reasoningItemValue reasoning =>
      if progress.reasoningTextChunks.keys.isEmpty then item
      else .reasoningItemValue (setReasoningSummary
        (mergeReasoningSummary (materializedReasoningSummary progress) reasoning.summary) reasoning)
  | item => item

/-! ### What the events do to the progress of an item -/

/-- An item event at a slot. -/
def itemProgress (done : Bool) (item : ResponseItem π) : Option (ItemProgress π) → ItemProgress π
  | none => ⟨item, done, none, none, .empty⟩
  | some old =>
      -- only a finished item takes over what was buffered
      { itemValue := mergeResponseItem old.itemValue
          (if done then preserveBufferedProgress old item else item)
        itemDone := old.itemDone || done
        functionArgumentChunks := if done then none else old.functionArgumentChunks
        customInputChunks := if done then none else old.customInputChunks
        reasoningTextChunks := if done then .empty else old.reasoningTextChunks }

def functionArgumentDelta (value : Text) (progress : ItemProgress π) : ItemProgress π :=
  { progress with
    functionArgumentChunks :=
      some (appendTextBuffer value (progress.functionArgumentChunks.getD emptyTextBuffer)) }

def functionArgumentDone (arguments functionName streamItemId : Option Text)
    (progress : ItemProgress π) : ItemProgress π :=
  -- without a text the buffered chunks are the arguments
  { progress with
    itemValue := mapFunctionCall streamItemId
      (fun call => { call with
        arguments := arguments.getD (materializedFunctionArguments progress)
        name := functionName.getD call.name }) progress.itemValue
    functionArgumentChunks := none }

def customToolInputDelta (value : Text) (progress : ItemProgress π) : ItemProgress π :=
  { progress with
    customInputChunks :=
      some (appendTextBuffer value (progress.customInputChunks.getD emptyTextBuffer)) }

def customToolInputDone (inputText streamItemId streamCallId : Option Text)
    (progress : ItemProgress π) : ItemProgress π :=
  { progress with
    itemValue := mapCustomCall streamItemId streamCallId
      (setCustomToolInput (inputText.getD (materializedCustomInput progress))) progress.itemValue
    customInputChunks := none }

def reasoningSummaryDone (value : Text) (streamItemId : Option Text) (summaryIndex : ℤ)
    (progress : ItemProgress π) : ItemProgress π :=
  { progress with
    itemValue := mapReasoning streamItemId summaryIndex (setReasoningPartText (some value))
      progress.itemValue
    reasoningTextChunks := progress.reasoningTextChunks.delete summaryIndex }

def reasoningSummaryDelta (value : Text) (summaryIndex : ℤ) (progress : ItemProgress π) :
    ItemProgress π :=
  { progress with
    reasoningTextChunks := progress.reasoningTextChunks.alter
      (fun chunks => some (appendTextBuffer value (chunks.getD emptyTextBuffer))) summaryIndex }

end HaskellAgent.Responses
