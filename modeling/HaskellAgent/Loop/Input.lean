import Mathlib.Algebra.Ring.Int.Defs
import Mathlib.Algebra.Ring.Nat
import Mathlib.Data.Char
import Mathlib.Data.List.Lex

/-!
# Turn inputs and their byte budget

The inputs the agent loop submits to a provider, with the tool calls and results and the messages
between agents they carry, and the byte count the retained input queues charge for each of them.

Texts are lists of characters.  The images and files of an attachment are kept only by the sizes
the budget reads.

## Main definitions

* `ToolCall`, `ToolCallResult`, `InterAgentMessage`, `TurnInput` — the data.
* `saturatingAdd`, `logicalTurnInputBytes` — the budget arithmetic.
-/

namespace HaskellAgent

/-- A text, as its characters. -/
abbrev Text := List Char

instance Text.lawfulBEq : LawfulBEq Text := inferInstance

/-! ### Text buffers -/

/-- An accumulated text: its size, the number of its chunks, and the chunks, latest first. -/
structure TextBuffer where
  size : ℕ
  count : ℕ
  chunks : List Text
  deriving DecidableEq, Repr

def emptyTextBuffer : TextBuffer := ⟨0, 0, []⟩

def appendTextBuffer (chunk : Text) (buffer : TextBuffer) : TextBuffer :=
  if chunk.isEmpty then buffer
  else ⟨buffer.size + chunk.length, buffer.count + 1, chunk :: buffer.chunks⟩

def textBufferToText (buffer : TextBuffer) : Text := buffer.chunks.reverse.flatten

theorem textBufferToText_empty : textBufferToText emptyTextBuffer = [] := rfl

theorem textBufferToText_append (chunk : Text) (buffer : TextBuffer) :
    textBufferToText (appendTextBuffer chunk buffer) = textBufferToText buffer ++ chunk := by
  unfold appendTextBuffer
  split
  · next hnil =>
    rw [List.isEmpty_iff] at hnil
    rw [hnil, List.append_nil]
  · simp [textBufferToText]

/-! ### Tool calls and results -/

/-- How the originating model turn encoded a call. -/
inductive ToolCallKind
  | functionCall
  | customCall
  | computerCall
  | computerFunctionCall
  | toolSearchCall
  deriving DecidableEq, Repr

/-- Whether the application may complete the call after the model turn has continued. -/
inductive ToolCallMode
  | blocking
  | async
  deriving DecidableEq, Repr

/-- A tool call emitted by a model transport. -/
structure ToolCall where
  callId : Text
  name : Text
  arguments : Text
  callKind : ToolCallKind
  argumentsEncrypted : Bool
  mode : ToolCallMode
  deriving DecidableEq, Repr

/-- Execution facts of a tool call. -/
inductive ToolOutcome
  | succeeded
  | failed
  | denied
  | cancelled
  | shellRunning (session : ℤ)
  | shellExited (code : ℤ)
  | shellCancelled
  | shellTimedOut
  deriving DecidableEq, Repr

/-- An image returned alongside a tool's text. -/
structure ToolResultImage where
  imageUrl : Text
  imageDetail : Option Text
  deriving DecidableEq, Repr

/-- A file returned alongside a tool's text. -/
structure ToolResultFile where
  fileName : Text
  fileMimeType : Text
  fileSize : ℕ
  deriving DecidableEq, Repr

/-- The result of a tool call. -/
structure ToolCallResult where
  callId : Text
  output : Text
  callKind : ToolCallKind
  toolResultMode : ToolCallMode
  toolResultImages : List ToolResultImage
  toolResultFiles : List ToolResultFile
  toolResultOutcome : Option ToolOutcome
  deriving DecidableEq, Repr

/-! ### Messages between agents -/

inductive InterAgentMessageType
  | newTask
  | queued
  | followUp
  deriving DecidableEq, Repr

inductive InterAgentMessageContent
  | plain (text : Text)
  | encrypted (text : Text)
  deriving DecidableEq, Repr

structure InterAgentMessageMetadata where
  localMessageId : Text
  originToolCallId : Option Text
  originRootTurnId : Option Text
  deriving DecidableEq, Repr

/-- A message from one agent to another. -/
structure InterAgentMessage where
  messageAuthor : Text
  messageRecipient : Text
  messageType : InterAgentMessageType
  messageContent : InterAgentMessageContent
  messageMetadata : Option InterAgentMessageMetadata
  deriving DecidableEq, Repr

def interAgentMessagePayload (message : InterAgentMessage) : Text :=
  match message.messageContent with
  | .plain text => text
  | .encrypted text => text

/-! ### Turn inputs -/

/-- A user attachment, by the sizes its budget reads. -/
inductive TurnAttachment
  | image (mime : Text) (size : ℕ)
  | file (name : Option Text) (mime : Text) (size : ℕ)
  deriving DecidableEq, Repr

/-- One input of the agent loop. -/
inductive TurnInput
  | userMessage (text : Text)
  /-- Harness-generated interruption evidence. -/
  | recoveryMessage (text : Text)
  | agentMessage (message : InterAgentMessage)
  | userMessageWithAttachments (text : Text) (attachments : List TurnAttachment)
  | completedTool (result : ToolCallResult)
  deriving DecidableEq, Repr

/-! ### The byte budget -/

/-- The largest machine integer, where `saturatingAdd` stops. -/
def maxBound : ℕ := 2 ^ 63 - 1

/-- Addition of byte counts that stops at `maxBound`. -/
def saturatingAdd (left right : ℕ) : ℕ :=
  -- the test is made by a subtraction, which cannot overflow where the sum could
  if right = 0 then left else if left > maxBound - right then maxBound else left + right

/-- The UTF-8 length of a character. -/
def charBytes (c : Char) : ℕ :=
  if c.toNat ≤ 0x7f then 1 else if c.toNat ≤ 0x7ff then 2 else if c.toNat ≤ 0xffff then 3 else 4

def logicalTextBytes (text : Text) : ℕ :=
  text.foldl (fun total c => saturatingAdd total (charBytes c)) 0

def foldBytes {α : Type*} (measure : α → ℕ) (values : List α) : ℕ :=
  values.foldr (fun value total => saturatingAdd (measure value) total) 0

def logicalAttachmentBytes : TurnAttachment → ℕ
  | .image mime size => saturatingAdd (logicalTextBytes mime) size
  | .file name mime size =>
      saturatingAdd (saturatingAdd (name.elim 0 logicalTextBytes) (logicalTextBytes mime)) size

def logicalToolResultImageBytes (image : ToolResultImage) : ℕ :=
  saturatingAdd (logicalTextBytes image.imageUrl) (image.imageDetail.elim 0 logicalTextBytes)

def logicalToolResultFileBytes (file : ToolResultFile) : ℕ :=
  saturatingAdd
    (saturatingAdd (logicalTextBytes file.fileName) (logicalTextBytes file.fileMimeType))
    file.fileSize

def messageMetadataBytes (metadata : InterAgentMessageMetadata) : ℕ :=
  saturatingAdd
    (saturatingAdd (logicalTextBytes metadata.localMessageId)
      (metadata.originToolCallId.elim 0 logicalTextBytes))
    (metadata.originRootTurnId.elim 0 logicalTextBytes)

/-- The bytes a retained input is charged for. -/
def logicalTurnInputBytes : TurnInput → ℕ
  | .userMessage text => logicalTextBytes text
  | .recoveryMessage text => logicalTextBytes text
  | .agentMessage message =>
      saturatingAdd
        (saturatingAdd
          (saturatingAdd (logicalTextBytes message.messageAuthor)
            (logicalTextBytes message.messageRecipient))
          (logicalTextBytes (interAgentMessagePayload message)))
        (message.messageMetadata.elim 0 messageMetadataBytes)
  | .userMessageWithAttachments text attachments =>
      saturatingAdd (logicalTextBytes text) (foldBytes logicalAttachmentBytes attachments)
  | .completedTool result =>
      saturatingAdd
        (saturatingAdd
          (saturatingAdd (logicalTextBytes result.callId) (logicalTextBytes result.output))
          (foldBytes logicalToolResultImageBytes result.toolResultImages))
        (foldBytes logicalToolResultFileBytes result.toolResultFiles)

end HaskellAgent
