import HaskellAgent.Lib.Json
import HaskellAgent.Loop.Input

/-!
# The store of outgoing Telegram messages

A delivery is a row of a table with its parts, which are numbered and immutable, and with its
progress: the next part, and a status.  Receipts are rows of a second table.  Each statement is
atomic, and what a row must be like for a statement to change it is part of the statement.

Which row a claim finds is left open among those that it may find, since rows that another
transaction has locked are skipped.
-/

namespace HaskellAgent
namespace Telegram

/-- A time of the database, in microseconds. -/
abbrev Timestamp := ℤ

inductive DeliveryStatus
  | pending
  | sending
  | sent
  | failed
  | uncertain
  deriving DecidableEq

structure DeliveryRow where
  bindingRevision : Text
  chatId : ℤ
  parts : List Json
  nextPart : ℕ
  status : DeliveryStatus
  createdAt : Timestamp
  retryAt : Timestamp
  deriving DecidableEq

/-- The namespace and the identifier of a delivery. -/
abbrev DeliveryKey := Text × Text

/-- The table of deliveries, and that of the receipts with the message of each part. -/
structure DeliveryDatabase where
  deliveries : DeliveryKey → Option DeliveryRow
  receipts : DeliveryKey → ℕ → Option ℤ

structure DeliveryRecord where
  deliveryIdentifier : Text
  bindingIdentifier : Text
  deliveryChatIdentifier : ℤ
  partIndex : ℕ
  partPayload : Json
  deriving DecidableEq

inductive DeliveryDisposition
  | rejected
  | uncertain
  deriving DecidableEq

inductive DeliveryOutcome
  | acknowledged (identifier : ℤ)
  | rejected
  | retryAfter (seconds : ℤ)
  | uncertain
  deriving DecidableEq

/-! ### Outcomes -/

structure TelegramRequestError where
  telegramErrorMessage : Text
  telegramErrorCode : Option ℤ
  telegramRetryAfter : Option ℤ
  telegramErrorRetryable : Bool
  deriving DecidableEq

/-- Only a definite rejection may be tried again. -/
def classifyDeliveryFailure (failure : TelegramRequestError) : DeliveryOutcome :=
  match failure.telegramErrorCode with
  | some code =>
    if 400 ≤ code ∧ code < 500 then
      if failure.telegramErrorRetryable then
        .retryAfter (max 1 (failure.telegramRetryAfter.getD 1))
      else .rejected
    else .uncertain
  | none => .uncertain

/-- The outcome of a request, whose response is read as the identifier of a message. -/
def deliverConnectorMessage : Except TelegramRequestError (Option ℤ) → DeliveryOutcome
  | .error failure => classifyDeliveryFailure failure
  | .ok (some identifier) => if 0 < identifier then .acknowledged identifier else .uncertain
  | .ok none => .uncertain

/-! ### Statements -/

/-- The table with one row changed. -/
def DeliveryDatabase.setRow (db : DeliveryDatabase) (key : DeliveryKey) (row : DeliveryRow) :
    DeliveryDatabase :=
  { db with deliveries := Function.update db.deliveries key (some row) }

def DeliveryDatabase.setReceipt (db : DeliveryDatabase) (key : DeliveryKey) (part : ℕ)
    (message : ℤ) : DeliveryDatabase :=
  { db with
    receipts := Function.update db.receipts key
      (Function.update (db.receipts key) part (some message)) }

/-- A delivery that is there already stays as it is. -/
def enqueueDelivery (db : DeliveryDatabase) (storeNamespace identifier binding : Text) (chat : ℤ)
    (parts : List Json) (now : Timestamp) : Except Text DeliveryDatabase :=
  if parts = [] then .error "Empty Telegram delivery".toList
  else
    match db.deliveries (storeNamespace, identifier) with
    | some _ => .ok db
    | none =>
      .ok (db.setRow (storeNamespace, identifier)
        { bindingRevision := binding, chatId := chat, parts, nextPart := 0, status := .pending,
          createdAt := now, retryAt := now })

/-- The claim of a delivery that may be claimed. -/
def claimDelivery (db : DeliveryDatabase) (storeNamespace identifier : Text) (now : Timestamp) :
    Option (DeliveryDatabase × DeliveryRecord) := do
  let row ← db.deliveries (storeNamespace, identifier)
  let payload ← row.parts[row.nextPart]?
  if row.status = .pending ∧ row.retryAt ≤ now then
    some (db.setRow (storeNamespace, identifier) { row with status := .sending },
      { deliveryIdentifier := identifier
        bindingIdentifier := row.bindingRevision
        deliveryChatIdentifier := row.chatId
        partIndex := row.nextPart
        partPayload := payload })
  else none

/-- The row of a record, if it is still being sent at that part. -/
def sendingRow (db : DeliveryDatabase) (storeNamespace : Text) (delivery : DeliveryRecord) :
    Option DeliveryRow :=
  (db.deliveries (storeNamespace, delivery.deliveryIdentifier)).filter fun row =>
    row.status = .sending ∧ row.nextPart = delivery.partIndex

/-- Progress and receipt in one transaction, which fails where there is a receipt already. -/
def completeDeliveryPart (db : DeliveryDatabase) (storeNamespace : Text) (delivery : DeliveryRecord)
    (messageIdentifier : ℤ) : Option (DeliveryDatabase × Bool) :=
  match sendingRow db storeNamespace delivery with
  | none => some (db, false)
  | some row =>
    match db.receipts (storeNamespace, delivery.deliveryIdentifier) delivery.partIndex with
    | some _ => none
    | none =>
      some ((db.setRow (storeNamespace, delivery.deliveryIdentifier)
        { row with
          nextPart := row.nextPart + 1
          status := if row.nextPart + 1 < row.parts.length then .pending else .sent }).setReceipt
        (storeNamespace, delivery.deliveryIdentifier) delivery.partIndex messageIdentifier, true)

def retryDeliveryPart (db : DeliveryDatabase) (storeNamespace : Text) (delivery : DeliveryRecord)
    (seconds : ℤ) (now : Timestamp) : DeliveryDatabase :=
  match sendingRow db storeNamespace delivery with
  | none => db
  | some row =>
    db.setRow (storeNamespace, delivery.deliveryIdentifier)
      { row with status := .pending, retryAt := now + max 1 seconds * 1000000 }

def rejectDeliveryPart (db : DeliveryDatabase) (storeNamespace : Text) (delivery : DeliveryRecord)
    (disposition : DeliveryDisposition) : DeliveryDatabase :=
  match sendingRow db storeNamespace delivery with
  | none => db
  | some row =>
    db.setRow (storeNamespace, delivery.deliveryIdentifier)
      { row with
        status := match disposition with
          | .rejected => .failed
          | .uncertain => .uncertain }

/-- The pending deliveries of a binding fail; those that are being sent are left alone. -/
def revokeBinding (db : DeliveryDatabase) (storeNamespace binding : Text) : DeliveryDatabase :=
  { db with
    deliveries := fun key => (db.deliveries key).map fun row =>
      if key.1 = storeNamespace ∧ row.bindingRevision = binding ∧ row.status = .pending then
        { row with status := .failed }
      else row }

/-- The statement that follows an outcome; `none` where its transaction fails. -/
def settleDelivery (db : DeliveryDatabase) (storeNamespace : Text) (delivery : DeliveryRecord)
    (outcome : DeliveryOutcome) (now : Timestamp) : Option DeliveryDatabase :=
  match outcome with
  | .acknowledged identifier =>
    if 0 < identifier ∧ identifier ≤ 2 ^ 63 - 1 then
      (completeDeliveryPart db storeNamespace delivery identifier).map Prod.fst
    else some (rejectDeliveryPart db storeNamespace delivery .uncertain)
  | .rejected => some (rejectDeliveryPart db storeNamespace delivery .rejected)
  | .retryAfter seconds => some (retryDeliveryPart db storeNamespace delivery seconds now)
  | .uncertain => some (rejectDeliveryPart db storeNamespace delivery .uncertain)

end Telegram
end HaskellAgent
