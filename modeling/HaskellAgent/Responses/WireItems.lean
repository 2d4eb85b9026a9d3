import HaskellAgent.Lib.FinMap
import HaskellAgent.Lib.Json
import HaskellAgent.Loop.InputItems

/-!
# The items of requests and responses

The items that conversations are made of, with all the data the provider or the host attaches to
them.  Embedded JSON that the host only passes on is kept as the text it arrived as.

## Main definitions

* `ResponseContentPart`, `ResponseMessage`, `FunctionCall`, … — the parts.
* `ResponseItem` — the items.
* `isRecoveryMessage`, `isModelContextItem` — what the host reads off messages.
-/

namespace HaskellAgent.Wire

/-- A JSON value, as the text it arrived as. -/
structure RawJson where
  rawJsonBytes : Text
  deriving DecidableEq

/-- An object of which only the type is kept. -/
structure TaggedObject where
  tag : Text
  deriving DecidableEq

/-- The members of a JSON object. -/
abbrev Object := List (Text × Json)

/-! ### Content -/

inductive ResponseRole
  | user
  | assistant
  | system
  | developer
  | unknown (value : Text)
  deriving DecidableEq

inductive ResponseContentPart
  | inputText (text : Text) (promptCacheBreakpoint : Option RawJson)
  | inputImage (detail fileId imageUrl : Option Text) (promptCacheBreakpoint : Option RawJson)
  | inputFile (detail fileData fileId fileUrl filename : Option Text)
      (promptCacheBreakpoint : Option RawJson)
  | inputAudio (inputAudio : RawJson)
  | outputText (text : Text) (annotations logprobs : Option (List RawJson))
  | refusal (refusal : Text)
  | reasoningText (text : Text)
  | summaryText (text : Text)
  | encryptedContent (encryptedContent : Text)
  | plainText (text : Text)
  | unknownContent (tagged : TaggedObject)
  deriving DecidableEq

inductive MessageContent
  | text (value : Text)
  | parts (parts : List ResponseContentPart)
  deriving DecidableEq

structure InternalChatMetadata where
  turnId : Option Text
  createTime : Option RawJson
  contentItemKinds : Option (List Text)
  executedToolCalls : Option RawJson
  deriving DecidableEq

/-! ### Messages and function calls -/

structure ResponseMessage where
  messageId : Option Text
  content : MessageContent
  role : ResponseRole
  status : Option ItemStatus
  phase : Option Text
  passthrough : Option InternalChatMetadata
  deriving DecidableEq

structure FunctionCall where
  itemId : Option Text
  callId : Text
  name : Text
  callNamespace : Option Text
  provider : Option Text
  arguments : Text
  encryptedFunctionArgs : Option (List Text)
  status : Option ItemStatus
  async : Option Bool
  deriving DecidableEq

/-- The outcome is a local fact, never part of the provider's JSON. -/
structure FunctionCallOutput where
  itemId : Option Text
  callId : Text
  name : Option Text
  callNamespace : Option Text
  provider : Option Text
  output : RawJson
  status : Option ItemStatus
  async : Option Bool
  localOutcome : Option ToolOutcome
  deriving DecidableEq

structure CustomToolCall where
  itemId : Option Text
  callId : Text
  name : Text
  callNamespace : Option Text
  input : Text
  status : Option ItemStatus
  async : Option Bool
  deriving DecidableEq

structure CustomToolCallOutput where
  itemId : Option Text
  callId : Text
  name : Option Text
  output : RawJson
  status : Option ItemStatus
  async : Option Bool
  localOutcome : Option ToolOutcome
  deriving DecidableEq

/-! ### Computer calls -/

structure ComputerPoint where
  pointX : ℤ
  pointY : ℤ
  deriving DecidableEq

inductive ComputerAction
  | screenshot
  | click (x y : ℤ) (button : Text) (keys : List Text)
  | doubleClick (x y : ℤ) (keys : List Text)
  | type (text : Text)
  | keypress (keys : List Text)
  | scroll (x y dx dy : ℤ) (keys : List Text)
  | move (x y : ℤ) (keys : List Text)
  | wait
  | drag (path : List ComputerPoint) (keys : List Text)
  | unknown (tagged : TaggedObject)
  deriving DecidableEq

structure SafetyCheck where
  safetyCheckId : Text
  safetyCheckCode : Option Text
  safetyCheckMessage : Option Text
  safetyCheckExtra : Object
  deriving DecidableEq

structure ComputerCall where
  computerCallItemId : Option Text
  computerCallId : Text
  computerActions : List ComputerAction
  pendingSafetyChecks : List SafetyCheck
  computerCallStatus : Option ItemStatus
  computerCallExtra : Object
  deriving DecidableEq

structure ComputerCallOutput where
  computerOutputItemId : Option Text
  computerOutputCallId : Text
  screenshotDataUrl : Text
  acknowledgedChecks : List SafetyCheck
  computerOutputStatus : Option ItemStatus
  computerOutputExtra : Object
  deriving DecidableEq

/-! ### Other items -/

structure ReasoningSummaryPart where
  partType : Text
  text : Option Text
  deriving DecidableEq

structure ReasoningItem where
  itemId : Option Text
  summary : List ReasoningSummaryPart
  content : Option (List ResponseContentPart)
  encryptedContent : Option Text
  status : Option ItemStatus
  deriving DecidableEq

structure ItemReference where
  itemId : Text
  deriving DecidableEq

structure ResponseAgentMessage where
  messageId : Option Text
  author : Option Text
  recipient : Option Text
  content : List ResponseContentPart
  passthrough : Option InternalChatMetadata
  localMetadata : Option InterAgentMessageMetadata
  deriving DecidableEq

structure AdditionalToolsItem where
  itemId : Option Text
  role : Text
  tools : List RawJson
  deriving DecidableEq

abbrev EnvironmentVariables := FinMap Text Text

inductive LocalShellAction
  | exec (command : List Text) (timeoutMs : Option ℤ) (workingDirectory : Option Text)
      (env : Option EnvironmentVariables) (user : Option Text)
  | other (tagged : TaggedObject)
  deriving DecidableEq

structure LocalShellCall where
  itemId : Option Text
  callId : Option Text
  status : Option ItemStatus
  action : Option LocalShellAction
  deriving DecidableEq

structure ToolSearchCall where
  itemId : Option Text
  callId : Option Text
  status : Option Text
  execution : Option Text
  arguments : Option RawJson
  deriving DecidableEq

structure ToolSearchOutput where
  itemId : Option Text
  callId : Option Text
  status : Option Text
  execution : Option Text
  tools : List RawJson
  deriving DecidableEq

inductive WebSearchAction
  | query (query : Option Text) (queries : Option (List Text))
  | openPage (url : Option Text)
  | findInPage (url pattern : Option Text)
  | other (tagged : TaggedObject)
  deriving DecidableEq

structure WebSearchCall where
  itemId : Option Text
  status : Option Text
  action : Option WebSearchAction
  deriving DecidableEq

structure ImageGenerationCall where
  itemId : Option Text
  status : Option Text
  revisedPrompt : Option Text
  result : Option Text
  deriving DecidableEq

structure CompactionItem where
  itemId : Option Text
  encryptedContent : Option Text
  deriving DecidableEq

structure ContextCompactionItem where
  itemId : Option Text
  encryptedContent : Option Text
  deriving DecidableEq

/-- The type of an item on the wire. -/
inductive ResponseItemType
  | message
  | agentMessage
  | fileSearchCall
  | computerCall
  | computerCallOutput
  | webSearchCall
  | functionCall
  | functionCallOutput
  | toolSearchCall
  | toolSearchOutput
  | reasoning
  | compaction
  | imageGenerationCall
  | codeInterpreterCall
  | localShellCall
  | localShellCallOutput
  | shellCall
  | shellCallOutput
  | applyPatchCall
  | applyPatchCallOutput
  | mcpListTools
  | mcpApprovalRequest
  | mcpApprovalResponse
  | mcpCall
  | customToolCallOutput
  | customToolCall
  | compactionTrigger
  | contextCompaction
  | additionalTools
  | reference
  | program
  | programOutput
  | unknownType (value : Text)
  deriving DecidableEq

inductive ResponseItem
  | messageItem (message : ResponseMessage)
  | functionCallItem (call : FunctionCall)
  | functionCallOutputItem (output : FunctionCallOutput)
  | customToolCallItem (call : CustomToolCall)
  | customToolCallOutputItem (output : CustomToolCallOutput)
  | computerCallItem (call : ComputerCall)
  | computerCallOutputItem (output : ComputerCallOutput)
  | reasoningItemValue (reasoning : ReasoningItem)
  | itemReferenceValue (reference : ItemReference)
  | agentMessageItem (message : ResponseAgentMessage)
  | additionalToolsItemValue (item : AdditionalToolsItem)
  | localShellCallItem (call : LocalShellCall)
  | toolSearchCallItem (call : ToolSearchCall)
  | toolSearchOutputItem (output : ToolSearchOutput)
  | webSearchCallItem (call : WebSearchCall)
  | imageGenerationCallItem (call : ImageGenerationCall)
  | compactionItemValue (item : CompactionItem)
  | compactionTriggerItemValue
  | contextCompactionItemValue (item : ContextCompactionItem)
  | knownResponseItem (itemType : ResponseItemType) (tagged : TaggedObject)
  | unknownResponseItem (tagged : TaggedObject)
  deriving DecidableEq

/-! ### What the host reads off messages -/

def recoveryContextContentItemKind : Text := "haskell-agent.recovery-context".toList

def responseMessageHasContentItemKind (kind : Text) (message : ResponseMessage) : Bool :=
  message.passthrough.elim false fun metadata =>
    metadata.contentItemKinds.elim false fun kinds => kinds.contains kind

def isRecoveryMessage (message : ResponseMessage) : Bool :=
  responseMessageHasContentItemKind recoveryContextContentItemKind message

/-- Declarations for one provider and model, which are no portable conversation content. -/
def isModelContextItem : ResponseItem → Bool
  | .additionalToolsItemValue _ => true
  | .messageItem message =>
      message.passthrough.elim false fun metadata =>
        metadata.contentItemKinds.elim false fun kinds =>
          kinds.any fun kind =>
            kind == "model.tool_catalog".toList || kind == "model.base_instructions".toList
  | _ => false

end HaskellAgent.Wire
