import HaskellAgent.Lib.FinMapBounds
import HaskellAgent.Loop.InputItems
import HaskellAgent.Telegram.DeliveryStore
import Mathlib.Data.List.Infix
import Mathlib.Data.Prod.Lex

/-!
# The queue of pending actions of each chat

An update that asks for a turn becomes a pending action of its chat.  Where the newest action of the
chat may be joined, the update is joined to it under its own number.  One worker of a chat takes the
action of the least number, runs it while it stays in the queue, and then completes it or records
that it failed.

The settings and the users that the state also holds play no part here.  What a run does is left
open, except that it stores the transcript of a voice message.
-/

namespace HaskellAgent
namespace Telegram

structure TelegramChatKey where
  chatId : ℤ
  messageThreadId : Option ℤ
  deriving DecidableEq

/-- Chats are ordered by their fields, where no thread comes first. -/
def TelegramChatKey.fields (key : TelegramChatKey) : ℤ ×ₗ WithBot ℤ :=
  toLex (key.chatId, key.messageThreadId)

instance : LinearOrder TelegramChatKey :=
  LinearOrder.lift' TelegramChatKey.fields fun a b h => by
    cases a
    cases b
    cases h
    rfl

/-! ### Actions -/

structure TelegramVoice where
  voiceFileId : Text
  voiceDuration : ℤ
  voiceMimeType : Option Text
  voiceFileSize : Option ℤ
  deriving DecidableEq

inductive TelegramMediaKind
  | photo
  | document
  | video
  | videoNote
  | audio
  | animation
  | sticker
  | location
  | contact
  | venue
  | poll
  | dice
  deriving DecidableEq

structure TelegramFileMedia where
  fileMediaFileId : Text
  fileMediaName : Option Text
  fileMediaMimeType : Option Text
  fileMediaFileSize : Option ℤ
  fileMediaDuration : Option ℤ
  deriving DecidableEq

structure TelegramMedia where
  telegramMediaKind : TelegramMediaKind
  telegramMediaFile : Option TelegramFileMedia
  telegramMediaDescription : Text
  deriving DecidableEq

structure TelegramPendingTurn where
  pendingTurnUpdateId : ℤ
  pendingTurnMessageId : ℤ
  pendingTurnChat : TelegramChatKey
  pendingTurnText : Text
  pendingTurnVoice : Option TelegramVoice
  deriving DecidableEq

structure TelegramPendingReply where
  pendingUpdateId : ℤ
  pendingChat : TelegramChatKey
  pendingReplyToMessageId : Option ℤ
  pendingEditMessageId : Option ℤ
  pendingText : Text
  deriving DecidableEq

structure TelegramPendingMediaTurn where
  pendingMediaUpdateId : ℤ
  pendingMediaMessageId : ℤ
  pendingMediaChat : TelegramChatKey
  pendingMediaUserId : ℤ
  pendingMediaText : Text
  pendingMediaAttachments : List TelegramMedia
  pendingMediaEdited : Bool
  pendingMediaGroupId : Option Text
  deriving DecidableEq

structure TelegramPendingLeave where
  pendingLeaveUpdateId : ℤ
  pendingLeaveChat : TelegramChatKey
  deriving DecidableEq

structure TelegramPendingCallback where
  pendingCallbackUpdateId : ℤ
  pendingCallbackQueryId : Text
  pendingCallbackUserId : ℤ
  pendingCallbackChat : Option TelegramChatKey
  pendingCallbackMessageId : Option ℤ
  pendingCallbackData : Text
  deriving DecidableEq

inductive PendingChatAction
  | deliverReply (pending : TelegramPendingReply)
  | runPendingTurn (pending : TelegramPendingTurn)
  | runPendingMediaTurn (pending : TelegramPendingMediaTurn)
  | leaveUnauthorizedChat (pending : TelegramPendingLeave)
  deriving DecidableEq

def pendingActionUpdateId : PendingChatAction → ℤ
  | .deliverReply pending => pending.pendingUpdateId
  | .runPendingTurn pending => pending.pendingTurnUpdateId
  | .runPendingMediaTurn pending => pending.pendingMediaUpdateId
  | .leaveUnauthorizedChat pending => pending.pendingLeaveUpdateId

def pendingActionChat : PendingChatAction → TelegramChatKey
  | .deliverReply pending => pending.pendingChat
  | .runPendingTurn pending => pending.pendingTurnChat
  | .runPendingMediaTurn pending => pending.pendingMediaChat
  | .leaveUnauthorizedChat pending => pending.pendingLeaveChat

/-! ### The state -/

structure TelegramRetryMetadata where
  retryAttempts : ℕ
  retryNextAt : Option Timestamp
  retryLastError : Option Text
  deriving DecidableEq

structure TelegramDeadLetter where
  deadLetterUpdateId : ℤ
  deadLetterChat : Option TelegramChatKey
  deadLetterError : Text
  deadLetterFailedAt : Timestamp
  deadLetterAction : Option PendingChatAction
  deriving DecidableEq

structure TelegramState where
  nextUpdateId : Option ℤ
  pendingQueues : FinMap TelegramChatKey (FinMap ℤ PendingChatAction)
  pendingCallbacks : FinMap ℤ TelegramPendingCallback
  retryMetadata : FinMap Text TelegramRetryMetadata
  deliveryCheckpoints : FinMap Text ℕ
  deadLetters : List TelegramDeadLetter
  authorizedGroupChatIds : Finset ℤ

def emptyTelegramState : TelegramState where
  nextUpdateId := none
  pendingQueues := .empty
  pendingCallbacks := .empty
  retryMetadata := .empty
  deliveryCheckpoints := .empty
  deadLetters := []
  authorizedGroupChatIds := ∅

/-- The queue of a chat, which is made where there is none. -/
def insertPendingAction (action : PendingChatAction)
    (queues : FinMap TelegramChatKey (FinMap ℤ PendingChatAction)) :
    FinMap TelegramChatKey (FinMap ℤ PendingChatAction) :=
  queues.alter
    (fun queue => some ((queue.getD .empty).insert (pendingActionUpdateId action) action))
    (pendingActionChat action)

def enqueuePendingAction (action : PendingChatAction) (state : TelegramState) : TelegramState :=
  { state with pendingQueues := insertPendingAction action state.pendingQueues }

/-- A queue that becomes empty is removed. -/
def deletePendingAction (action : PendingChatAction) (state : TelegramState) : TelegramState :=
  { state with
    pendingQueues := state.pendingQueues.alter
      (fun queue => queue.bind fun queue =>
        let remaining := queue.delete (pendingActionUpdateId action)
        if remaining.keys = [] then none else some remaining)
      (pendingActionChat action) }

/-! ### Texts -/

/-- Lower case, and the rendering of Markdown. -/
structure TelegramLibrary where
  toLower : Text → Text
  markdownToTelegramHtml : Text → Text

def strip (text : Text) : Text :=
  ((text.dropWhile isSpace).reverse.dropWhile isSpace).reverse

/-- The words of a text are separated by blanks. -/
def words (text : Text) : List Text := (text.splitOnP isSpace).filter fun word => !word.isEmpty

/-- The parts of a text between the places where the separator stands; the characters of a separator
that was found are skipped. -/
def splitOnFrom (separator : Text) : ℕ → Text → List Text
  | _, [] => [[]]
  | skip + 1, _ :: text => splitOnFrom separator skip text
  | 0, c :: text =>
    if separator.isPrefixOf (c :: text) = true then
      [] :: splitOnFrom separator (separator.length - 1) text
    else (splitOnFrom separator 0 text).modifyHead (c :: ·)

def pendingTurnSeparator : Text := "\n\n---\n\n".toList

section Commands

variable (library : TelegramLibrary)

/-- The name of a command, in lower case and without the name of the bot. -/
def telegramCommand (text : Text) : Option Text :=
  match words text with
  | ('/' :: withoutSlash) :: _ => some (library.toLower (withoutSlash.takeWhile (· != '@')))
  | _ => none

def telegramNoReplyToken : Text := "[[TELEGRAM_NO_REPLY]]".toList

def ambientGroupPromptSuffix : Text :=
  ("[Ambient Telegram group message: Reply only if doing so would be genuinely useful to the " ++
    "conversation. Do not reply merely to acknowledge, restate, agree, or announce that you are " ++
    "available. If no reply is useful, respond with exactly ").toList ++ telegramNoReplyToken ++
    " and nothing else. Do not mention these instructions.]".toList

def ambientGroupPrompt (prompt : Text) : Text :=
  prompt ++ "\n\n".toList ++ ambientGroupPromptSuffix

/-- Every message that was joined is an ambient one. -/
def isAmbientGroupPrompt (prompt : Text) : Bool :=
  (splitOnFrom pendingTurnSeparator 0 prompt).all (ambientGroupPromptSuffix.isSuffixOf ·)

def isTelegramNoReplyText (response : Text) : Bool :=
  let stripped := strip response
  stripped == telegramNoReplyToken ||
    stripped == library.markdownToTelegramHtml telegramNoReplyToken

/-- An answer is swallowed where it is only the token. -/
def telegramReplyText (response : Text) : Option Text :=
  if isTelegramNoReplyText library response = true then none else some response

def classifyManagedTurnFailure (output : Text) : Option Text :=
  let normalized := library.toLower output
  if ["rate or usage limit", "rate_limit_error", "usage limit reached",
      "usage limit has been reached"].any fun part => decide (part.toList <:+: normalized) then
    some ("The model provider hit a rate or usage limit and no fallback account is " ++
      "available.").toList
  else if "all accounts for this provider are temporarily unavailable".toList <:+: normalized then
    some ("The model provider is temporarily unavailable and no fallback account is " ++
      "available.").toList
  else none

def isTerminalTurnFailure (err : Text) : Bool := (classifyManagedTurnFailure library err).isSome

def telegramFailureMessage (lead err : Text) : Text :=
  match classifyManagedTurnFailure library err with
  | some safeReason =>
    lead ++ "\n\nReason: ".toList ++ safeReason ++
      "\n\nUse /model to switch models, then send /retry.".toList
  | none => lead ++ " after 5 attempts. Send /retry to try it again.".toList

end Commands

/-! ### Storing an update -/

structure TelegramUser where
  userId : ℤ
  userUsername : Option Text
  deriving DecidableEq

inductive TelegramUpdateAction
  | ignoreUpdate
  | interruptTurn (messageId : ℤ) (key : TelegramChatKey)
  | queueTurn (messageId : ℤ) (key : TelegramChatKey) (text : Text) (voice : Option TelegramVoice)
  | queueMediaTurn (pending : TelegramPendingMediaTurn)
  | queueCallback (pending : TelegramPendingCallback)
  | authorizeGroupChat (chatId : ℤ)
  | revokeGroupChat (chatId : ℤ)
  | reviewGroupJoin (chatId : ℤ) (actor : TelegramUser)
  | leaveUnauthorizedGroup (chatId : ℤ)
  deriving DecidableEq

def updateAlreadyStored (updateId : ℤ) (state : TelegramState) : Bool :=
  state.nextUpdateId.any (fun next => updateId < next) ||
    (state.pendingQueues.elems.any fun queue => (queue.lookup updateId).isSome) ||
    (state.pendingCallbacks.lookup updateId).isSome

section Store

variable (library : TelegramLibrary)

/-- Actions that later messages may be joined to, and that may be joined to earlier ones. -/
def guardBatchable : PendingChatAction → Bool
  | .runPendingTurn pending =>
    pending.pendingTurnVoice.isNone &&
      (telegramCommand library pending.pendingTurnText).isNone &&
      !"[Telegram reaction".toList.isPrefixOf pending.pendingTurnText
  | .runPendingMediaTurn pending => (telegramCommand library pending.pendingMediaText).isNone
  | _ => false

def previousBatchableAction (incoming : PendingChatAction) (state : TelegramState) :
    Option PendingChatAction :=
  if guardBatchable library incoming = true then do
    let queue ← state.pendingQueues.lookup (pendingActionChat incoming)
    let (_, previous) ← queue.lookupMax
    if guardBatchable library previous = true then
      if pendingActionUpdateId previous < pendingActionUpdateId incoming then some previous
      else none
    else none
  else none

end Store

/-- The parts of an action that are joined. -/
structure PendingActionParts where
  text : Text
  media : List TelegramMedia
  user : ℤ
  messageId : ℤ
  edited : Bool
  group : Option Text

def pendingActionParts : PendingChatAction → PendingActionParts
  | .runPendingTurn pending =>
    ⟨pending.pendingTurnText, [], 0, pending.pendingTurnMessageId, false, none⟩
  | .runPendingMediaTurn pending =>
    ⟨pending.pendingMediaText, pending.pendingMediaAttachments, pending.pendingMediaUserId,
      pending.pendingMediaMessageId, pending.pendingMediaEdited, pending.pendingMediaGroupId⟩
  | .deliverReply pending =>
    ⟨pending.pendingText, [], 0, pending.pendingReplyToMessageId.getD 0, false, none⟩
  | .leaveUnauthorizedChat _ => ⟨[], [], 0, 0, false, none⟩

/-- The texts without blanks around them, where something is left. -/
def mergedText (previousText incomingText : Text) : Text :=
  pendingTurnSeparator.intercalate
    ([strip previousText, strip incomingText].filter fun text => !text.isEmpty)

/-- The second action takes in the first, under the number of the second. -/
def mergePendingActions (previous incoming : PendingChatAction) : PendingChatAction :=
  let before := pendingActionParts previous
  let after := pendingActionParts incoming
  let mergedAttachments := before.media ++ after.media
  if mergedAttachments = [] ∧ after.edited = false then
    .runPendingTurn
      { pendingTurnUpdateId := pendingActionUpdateId incoming
        pendingTurnMessageId := after.messageId
        pendingTurnChat := pendingActionChat incoming
        pendingTurnText := mergedText before.text after.text
        pendingTurnVoice := none }
  else
    .runPendingMediaTurn
      { pendingMediaUpdateId := pendingActionUpdateId incoming
        pendingMediaMessageId := after.messageId
        pendingMediaChat := pendingActionChat incoming
        pendingMediaUserId := if after.user = 0 then before.user else after.user
        pendingMediaText := mergedText before.text after.text
        pendingMediaAttachments := mergedAttachments
        pendingMediaEdited := after.edited
        pendingMediaGroupId := after.group <|> before.group }

def authorizeGroupKey (key : TelegramChatKey) (state : TelegramState) : TelegramState :=
  if key.chatId < 0 then
    { state with authorizedGroupChatIds := Insert.insert key.chatId state.authorizedGroupChatIds }
  else state

/-- The queues of all threads of a chat are dropped. -/
def dropPendingChat (chatId : ℤ) (state : TelegramState) : TelegramState :=
  { state with
    pendingQueues := .ofList (state.pendingQueues.toList.filter fun entry =>
      entry.1.chatId != chatId) }

/-- The turns of an edited message are dropped. -/
def removePendingMessage (key : TelegramChatKey) (messageId : ℤ) (state : TelegramState) :
    TelegramState :=
  let sameMessage : PendingChatAction → Bool
    | .runPendingTurn pending => pending.pendingTurnMessageId == messageId
    | .runPendingMediaTurn pending => pending.pendingMediaMessageId == messageId
    | _ => false
  { state with
    pendingQueues := state.pendingQueues.alter
      (fun queue => queue.bind fun queue =>
        let remaining := queue.filter fun action => !sameMessage action
        if remaining.keys = [] then none else some remaining)
      key }

section Store

variable (library : TelegramLibrary)

def enqueueIncomingAction (incoming : PendingChatAction) (state : TelegramState) : TelegramState :=
  match previousBatchableAction library incoming state with
  | none => enqueuePendingAction incoming state
  | some previous =>
    enqueuePendingAction (mergePendingActions previous incoming)
      (deletePendingAction previous state)

def advanceOffset (updateId : ℤ) (state : TelegramState) : TelegramState :=
  { state with nextUpdateId := some (max (updateId + 1) (state.nextUpdateId.getD 0)) }

def storeUpdateAction (updateId : ℤ) (action : TelegramUpdateAction) (current : TelegramState) :
    TelegramState :=
  if updateAlreadyStored updateId current = true then advanceOffset updateId current
  else
    advanceOffset updateId <|
      match action with
      | .ignoreUpdate => current
      | .interruptTurn _ _ => current
      | .reviewGroupJoin _ _ => current
      | .authorizeGroupChat chatId =>
        { current with
          authorizedGroupChatIds := Insert.insert chatId current.authorizedGroupChatIds }
      | .revokeGroupChat chatId =>
        { current with authorizedGroupChatIds := current.authorizedGroupChatIds.erase chatId }
      | .leaveUnauthorizedGroup chatId =>
        enqueuePendingAction (.leaveUnauthorizedChat ⟨updateId, ⟨chatId, none⟩⟩)
          { dropPendingChat chatId current with
            authorizedGroupChatIds := current.authorizedGroupChatIds.erase chatId }
      | .queueTurn messageId key text voice =>
        authorizeGroupKey key
          (enqueueIncomingAction library (.runPendingTurn ⟨updateId, messageId, key, text, voice⟩)
            current)
      | .queueMediaTurn pending =>
        let prepared := { pending with pendingMediaUpdateId := updateId }
        let replaced :=
          if pending.pendingMediaEdited = true then
            removePendingMessage pending.pendingMediaChat pending.pendingMediaMessageId current
          else current
        authorizeGroupKey pending.pendingMediaChat
          (enqueueIncomingAction library (.runPendingMediaTurn prepared) replaced)
      | .queueCallback pending =>
        (pending.pendingCallbackChat.elim id authorizeGroupKey)
          { current with
            pendingCallbacks :=
              current.pendingCallbacks.insert pending.pendingCallbackUpdateId pending }

end Store

/-! ### The worker of a chat -/

/-- The action of the least number. -/
def nextPendingAction (key : TelegramChatKey) (state : TelegramState) : Option PendingChatAction :=
  (state.pendingQueues.lookup key).bind fun queue => queue.lookupMin.map Prod.snd

def pendingRetryKey (action : PendingChatAction) : Text :=
  [':'].intercalate
    [ Json.renderInt (pendingActionChat action).chatId,
      (pendingActionChat action).messageThreadId.elim ['-'] Json.renderInt,
      Json.renderInt (pendingActionUpdateId action),
      match action with
      | .deliverReply _ => "reply".toList
      | .runPendingTurn _ => "turn".toList
      | .runPendingMediaTurn _ => "media".toList
      | .leaveUnauthorizedChat _ => "leave".toList ]

def completePendingAction (action : PendingChatAction) (state : TelegramState) : TelegramState :=
  { deletePendingAction action state with
    retryMetadata := state.retryMetadata.delete (pendingRetryKey action)
    deliveryCheckpoints := state.deliveryCheckpoints.delete (pendingRetryKey action) }

/-- The transcript takes the place of the voice message, wherever its turn is pending. -/
def checkpointPendingVoiceTranscript (updateId : ℤ) (transcript : Text) (state : TelegramState) :
    TelegramState :=
  let checkpoint : PendingChatAction → PendingChatAction
    | .runPendingTurn current =>
      if current.pendingTurnUpdateId = updateId then
        .runPendingTurn { current with pendingTurnText := transcript, pendingTurnVoice := none }
      else .runPendingTurn current
    | current => current
  { state with pendingQueues := state.pendingQueues.map fun queue => queue.map checkpoint }

def isLeaveAction : PendingChatAction → Bool
  | .leaveUnauthorizedChat _ => true
  | _ => false

section Worker

variable (library : TelegramLibrary)

def failureReply (action : PendingChatAction) (err : Text) : Option TelegramPendingReply :=
  match action with
  | .deliverReply _ => none
  | .leaveUnauthorizedChat _ => none
  | .runPendingTurn pending =>
    some
      { pendingUpdateId := pending.pendingTurnUpdateId
        pendingChat := pending.pendingTurnChat
        pendingReplyToMessageId := some pending.pendingTurnMessageId
        pendingEditMessageId := none
        pendingText :=
          telegramFailureMessage library "I couldn't process this turn.".toList err }
  | .runPendingMediaTurn pending =>
    some
      { pendingUpdateId := pending.pendingMediaUpdateId
        pendingChat := pending.pendingMediaChat
        pendingReplyToMessageId := some pending.pendingMediaMessageId
        pendingEditMessageId := none
        pendingText :=
          telegramFailureMessage library "I couldn't process this media turn.".toList err }

/-- The attempts with the one that has failed. -/
def failedAttempts (action : PendingChatAction) (state : TelegramState) : ℕ :=
  ((state.retryMetadata.lookup (pendingRetryKey action)).elim 0 (·.retryAttempts)) + 1

/-- The action is not tried again. -/
def isFinalFailure (action : PendingChatAction) (err : Text) (state : TelegramState) : Bool :=
  (decide (5 ≤ failedAttempts action state) || isTerminalTurnFailure library err) &&
    !isLeaveAction action

/-- The state after a failure, and the time in microseconds before the next attempt. -/
def recordPendingFailure (action : PendingChatAction) (err : Text) (now : Timestamp)
    (state : TelegramState) : TelegramState × Option ℕ :=
  let key := pendingRetryKey action
  if isFinalFailure library action err state = true then
    let withoutAction :=
      { deletePendingAction action state with
        retryMetadata := state.retryMetadata.delete key
        deadLetters := state.deadLetters ++
          [{ deadLetterUpdateId := pendingActionUpdateId action
             deadLetterChat := some (pendingActionChat action)
             deadLetterError := err
             deadLetterFailedAt := now
             deadLetterAction := some action }] }
    match failureReply library action err with
    | none => (withoutAction, none)
    | some pending => (enqueuePendingAction (.deliverReply pending) withoutAction, none)
  else
    let attempts := failedAttempts action state
    let seconds : ℕ := min 60 (2 ^ min 6 attempts)
    ({ state with
        retryMetadata := state.retryMetadata.insert key
          { retryAttempts := attempts
            retryNextAt := some (now + seconds * 1000000)
            retryLastError := some err } },
      some (seconds * 1000000))

structure TelegramTurnResponse where
  telegramTurnText : Text
  telegramTurnProgressMessageId : Option ℤ

/-- The action is completed, and its answer takes its place in the queue. -/
def enqueueOrDiscardReply (action : PendingChatAction) (chat : TelegramChatKey)
    (updateId messageId : ℤ) (response : TelegramTurnResponse) (state : TelegramState) :
    TelegramState :=
  match telegramReplyText library response.telegramTurnText with
  | none => completePendingAction action state
  | some replyText =>
    enqueuePendingAction
      (.deliverReply ⟨updateId, chat, some messageId, response.telegramTurnProgressMessageId,
        replyText⟩)
      (completePendingAction action state)

/-- The prompt of a voice message, whose transcript is marked. -/
def voicePrompt (pending : TelegramPendingTurn) (clean : Text) : Text :=
  let rendered := "[Voice message transcript]: ".toList ++ clean
  let prompt :=
    if pending.pendingTurnText = "[Voice message]".toList then rendered
    else pending.pendingTurnText ++ ['\n'] ++ rendered
  if isAmbientGroupPrompt pending.pendingTurnText = true then ambientGroupPrompt prompt
  else prompt

/-- What is done to the state when an action has been run. -/
def performed (action : PendingChatAction) (response : TelegramTurnResponse)
    (state : TelegramState) : TelegramState :=
  match action with
  | .deliverReply _ => completePendingAction action state
  | .runPendingTurn pending =>
    enqueueOrDiscardReply library action pending.pendingTurnChat pending.pendingTurnUpdateId
      pending.pendingTurnMessageId response state
  | .runPendingMediaTurn pending =>
    enqueueOrDiscardReply library action pending.pendingMediaChat pending.pendingMediaUpdateId
      pending.pendingMediaMessageId response state
  | .leaveUnauthorizedChat _ => completePendingAction action state

end Worker

end Telegram
end HaskellAgent
