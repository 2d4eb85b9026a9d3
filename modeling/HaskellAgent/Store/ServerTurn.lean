import HaskellAgent.Lib.FinMap
import HaskellAgent.Loop.Input

/-!
# The store of submitted turns

Turns that clients submit are rows of a table, and so are the reservations under which a session is
changed and the registrations of the server processes that own both.  Each operation of the store is
one transaction over these tables.

A transaction is a function of the tables.  One that violates a constraint fails, and changes
nothing.  The advisory locks a transaction tests are given to it: whether the connection of an owner
is alive, and whether an action of an owner is fenced.
-/

open Option

namespace HaskellAgent

namespace Store

/-- The value of a column of uuids, which are ordered as numbers. -/
abbrev Uuid := ℕ

/-- A time as the database keeps it, in microseconds. -/
abbrev UTCTime := ℤ

structure ServerTurnBoundary where
  serverTurnTenantId : Text
  serverTurnGatewayIdentity : Option Text
  deriving DecidableEq

inductive ServerTurnStatus
  | serverTurnQueued
  | serverTurnRunning
  | serverTurnCompleted
  | serverTurnFailed
  | serverTurnCancelled
  deriving DecidableEq

def isActive : ServerTurnStatus → Bool
  | .serverTurnQueued => true
  | .serverTurnRunning => true
  | .serverTurnCompleted => false
  | .serverTurnFailed => false
  | .serverTurnCancelled => false

def isTerminal (status : ServerTurnStatus) : Bool := !isActive status

structure StoredServerTurn where
  storedServerTurnId : Uuid
  storedServerTurnBoundary : ServerTurnBoundary
  storedServerTurnSessionId : Text
  storedServerTurnClientRequestId : Uuid
  storedServerTurnInputDigest : Text
  storedServerTurnInput : Text
  storedServerTurnOwnerInstanceId : Uuid
  storedServerTurnStatus : ServerTurnStatus
  storedServerTurnCreatedAt : UTCTime
  storedServerTurnStartedAt : Option UTCTime
  storedServerTurnFinishedAt : Option UTCTime
  storedServerTurnAssistantText : Option Text
  storedServerTurnAssistantTextTruncated : Bool
  storedServerTurnResponseId : Option Text
  storedServerTurnIncompleteReason : Option Text
  storedServerTurnIncompleteReasoningTokens : Option ℤ
  storedServerTurnError : Option Text
  deriving DecidableEq

structure ReserveServerTurn where
  reserveServerTurnId : Uuid
  reserveServerTurnBoundary : ServerTurnBoundary
  reserveServerTurnSessionId : Text
  reserveServerTurnClientRequestId : Uuid
  reserveServerTurnInputDigest : Text
  reserveServerTurnInput : Text
  reserveServerTurnOwnerInstanceId : Uuid
  reserveServerTurnCreatedAt : UTCTime
  deriving DecidableEq

inductive ServerTurnReservation
  | serverTurnReserved (turn : StoredServerTurn)
  | serverTurnAlreadyReserved (turn : StoredServerTurn)
  | serverTurnIdempotencyConflict (turn : StoredServerTurn)
  | serverTurnSessionBusy (turn : StoredServerTurn)
  | serverTurnSessionMutating
  | serverTurnSessionMissing
  | serverTurnOwnerUnavailable
  deriving DecidableEq

structure ServerTurnTerminal where
  terminalServerTurnStatus : ServerTurnStatus
  terminalServerTurnFinishedAt : UTCTime
  terminalServerTurnAssistantText : Option Text
  terminalServerTurnAssistantTextTruncated : Bool
  terminalServerTurnResponseId : Option Text
  terminalServerTurnIncompleteReason : Option Text
  terminalServerTurnIncompleteReasoningTokens : Option ℤ
  terminalServerTurnError : Option Text
  deriving DecidableEq

structure ServerSessionMutation where
  serverSessionMutationBoundary : ServerTurnBoundary
  serverSessionMutationSessionId : Text
  serverSessionMutationOwnerInstanceId : Uuid
  serverSessionMutationCreatedAt : UTCTime
  deriving DecidableEq

inductive ServerSessionMutationReservation
  | serverSessionMutationReserved
  | serverSessionMutationBusy
  | serverSessionMutationSessionMissing
  | serverSessionMutationOwnerUnavailable
  deriving DecidableEq

inductive StoreError
  | storeDataError (message : Text)
  /-- A statement violated a constraint. -/
  | constraintViolated
  deriving DecidableEq

/-! ### Tables -/

/-- What the turns and the mutations of a session are kept under. -/
structure SessionKey where
  boundary : ServerTurnBoundary
  sessionKey : Text
  deriving DecidableEq

structure SessionRow where
  gatewayIdentity : Option Text
  sessionKey : Text
  deletedAt : Option UTCTime
  deriving DecidableEq

structure TurnRow where
  turn : StoredServerTurn
  cancellationRequestedAt : Option UTCTime
  deriving DecidableEq

structure MutationRow where
  mutation : ServerSessionMutation
  /-- History: which of the attempts to reserve made the row. -/
  attempt : ℕ
  deriving DecidableEq

structure OwnerRow where
  lastHeartbeatAt : UTCTime
  revokedAt : Option UTCTime
  deriving DecidableEq

structure Database where
  sessions : List SessionRow
  turns : List TurnRow
  mutations : List MutationRow
  owners : FinMap Uuid OwnerRow

abbrev TurnRow.active (row : TurnRow) : Bool := isActive row.turn.storedServerTurnStatus

abbrev TurnRow.owner (row : TurnRow) : Uuid := row.turn.storedServerTurnOwnerInstanceId

abbrev MutationRow.owner (row : MutationRow) : Uuid :=
  row.mutation.serverSessionMutationOwnerInstanceId

def TurnRow.key (row : TurnRow) : SessionKey :=
  ⟨row.turn.storedServerTurnBoundary, row.turn.storedServerTurnSessionId⟩

def ReserveServerTurn.key (request : ReserveServerTurn) : SessionKey :=
  ⟨request.reserveServerTurnBoundary, request.reserveServerTurnSessionId⟩

def ServerSessionMutation.key (request : ServerSessionMutation) : SessionKey :=
  ⟨request.serverSessionMutationBoundary, request.serverSessionMutationSessionId⟩

/-- The constraints that the migrations put on each row of turns. -/
def StoredServerTurn.rowChecks (turn : StoredServerTurn) : Bool :=
  let status := turn.storedServerTurnStatus
  decide (turn.storedServerTurnInputDigest.length = 64) &&
  (match turn.storedServerTurnIncompleteReasoningTokens with
    | none => true
    | some tokens => decide (0 ≤ tokens)) &&
  (isTerminal status == turn.storedServerTurnFinishedAt.isSome) &&
  (decide (status ≠ .serverTurnCompleted) || turn.storedServerTurnStartedAt.isSome) &&
  (decide (status = .serverTurnCompleted) == turn.storedServerTurnResponseId.isSome) &&
  (decide (status = .serverTurnCompleted) ||
    (turn.storedServerTurnAssistantText.isNone && !turn.storedServerTurnAssistantTextTruncated &&
      turn.storedServerTurnIncompleteReason.isNone &&
      turn.storedServerTurnIncompleteReasoningTokens.isNone)) &&
  (turn.storedServerTurnAssistantText.isSome || !turn.storedServerTurnAssistantTextTruncated) &&
  (decide (status = .serverTurnFailed) == turn.storedServerTurnError.isSome) &&
  (turn.storedServerTurnIncompleteReason.isSome ||
    turn.storedServerTurnIncompleteReasoningTokens.isNone)

/-! ### Statements -/

def sessionExists (key : SessionKey) (db : Database) : Bool :=
  db.sessions.any fun row =>
    row.gatewayIdentity = key.boundary.serverTurnGatewayIdentity ∧
      row.sessionKey = key.sessionKey ∧ row.deletedAt = none

/-- The registration of the owner is valid, and its connection holds the owner's lock. -/
def ownerAvailable (live : Uuid → Bool) (instanceId : Uuid) (db : Database) : Bool :=
  (match db.owners.lookup instanceId with
    | some owner => owner.revokedAt.isNone
    | none => false) && live instanceId

def mutationExists (key : SessionKey) (db : Database) : Bool :=
  db.mutations.any fun row => row.mutation.key = key

def loadServerTurnByClientRequest (request : ReserveServerTurn) (db : Database) :
    Option StoredServerTurn :=
  (db.turns.find? fun row => row.key = request.key ∧
    row.turn.storedServerTurnClientRequestId =
      request.reserveServerTurnClientRequestId).map (·.turn)

/-- The oldest active turn of the session; the index on these allows only one. -/
def loadActiveServerTurn (key : SessionKey) (db : Database) : Option StoredServerTurn :=
  (db.turns.find? fun row => row.active ∧ row.key = key).map (·.turn)

def queuedRow (request : ReserveServerTurn) : TurnRow where
  turn :=
    { storedServerTurnId := request.reserveServerTurnId
      storedServerTurnBoundary := request.reserveServerTurnBoundary
      storedServerTurnSessionId := request.reserveServerTurnSessionId
      storedServerTurnClientRequestId := request.reserveServerTurnClientRequestId
      storedServerTurnInputDigest := request.reserveServerTurnInputDigest
      storedServerTurnInput := request.reserveServerTurnInput
      storedServerTurnOwnerInstanceId := request.reserveServerTurnOwnerInstanceId
      storedServerTurnStatus := .serverTurnQueued
      storedServerTurnCreatedAt := request.reserveServerTurnCreatedAt
      storedServerTurnStartedAt := none
      storedServerTurnFinishedAt := none
      storedServerTurnAssistantText := none
      storedServerTurnAssistantTextTruncated := false
      storedServerTurnResponseId := none
      storedServerTurnIncompleteReason := none
      storedServerTurnIncompleteReasoningTokens := none
      storedServerTurnError := none }
  cancellationRequestedAt := none

/-- The primary key, the key of the client's request or the index on active turns is taken. -/
def turnConflicts (new : TurnRow) (db : Database) : Bool :=
  db.turns.any fun row =>
    row.turn.storedServerTurnId = new.turn.storedServerTurnId ∨
      (row.key = new.key ∧ row.turn.storedServerTurnClientRequestId =
        new.turn.storedServerTurnClientRequestId) ∨
      (row.active ∧ new.active ∧ row.key = new.key)

/-- `INSERT … SELECT … FROM harness.sessions … ON CONFLICT DO NOTHING`: nothing is inserted for a
session that is not there, and the constraints are checked before a conflict is looked for. -/
def insertServerTurn (request : ReserveServerTurn) (db : Database) :
    Except StoreError (Option (StoredServerTurn × Database)) :=
  if sessionExists request.key db then
    if (queuedRow request).turn.rowChecks then
      if turnConflicts (queuedRow request) db then .ok none
      else
        .ok (some ((queuedRow request).turn,
          { db with turns := db.turns ++ [queuedRow request] }))
    else .error .constraintViolated
  else .ok none

/-- Change the rows of turns that match, unless a changed one violates a constraint. -/
def updateTurns (matching : TurnRow → Bool) (change : TurnRow → TurnRow) (db : Database) :
    Except StoreError Database :=
  if db.turns.all fun row => !matching row || (change row).turn.rowChecks then
    .ok { db with turns := db.turns.map fun row => if matching row then change row else row }
  else .error .constraintViolated

/-- Fail the active turns of the owners, with this error. -/
def interruptTurns (owners : Uuid → Bool) (now : UTCTime) (errorText : Text) (db : Database) :
    Except StoreError Database :=
  updateTurns (fun row => row.active && owners row.owner)
    (fun row =>
      { row with
        turn :=
          { row.turn with
            storedServerTurnStatus := .serverTurnFailed
            storedServerTurnFinishedAt := some now
            storedServerTurnError := some errorText } }) db

/-! ### Reservations -/

/-- A transaction: its result and the tables after it.  One that fails leaves the tables alone. -/
abbrev Transaction (α : Type) := Database → Except StoreError (α × Database)

def reserveServerTurn (live : Uuid → Bool) (request : ReserveServerTurn) :
    Transaction ServerTurnReservation := fun db =>
  if ownerAvailable live request.reserveServerTurnOwnerInstanceId db then
    match loadServerTurnByClientRequest request db with
    | some existing =>
        if existing.storedServerTurnInputDigest ≠ request.reserveServerTurnInputDigest then
          .ok (.serverTurnIdempotencyConflict existing, db)
        else .ok (.serverTurnAlreadyReserved existing, db)
    | none =>
        if mutationExists request.key db then .ok (.serverTurnSessionMutating, db)
        else
          match insertServerTurn request db with
          | .error err => .error err
          | .ok (some (inserted, db')) => .ok (.serverTurnReserved inserted, db')
          | .ok none =>
              match loadActiveServerTurn request.key db with
              | some active => .ok (.serverTurnSessionBusy active, db)
              | none =>
                  if sessionExists request.key db then
                    .error (.storeDataError
                      "server turn reservation did not find its session".toList)
                  else .ok (.serverTurnSessionMissing, db)
  else .ok (.serverTurnOwnerUnavailable, db)

def reserveServerSessionMutation (live : Uuid → Bool) (request : ServerSessionMutation)
    (attempt : ℕ) : Transaction ServerSessionMutationReservation := fun db =>
  if ownerAvailable live request.serverSessionMutationOwnerInstanceId db then
    if sessionExists request.key db then
      if db.turns.any fun row => row.active ∧ row.key = request.key then
        .ok (.serverSessionMutationBusy, db)
      -- the index on the mutations holds the new row back
      else if mutationExists request.key db then .ok (.serverSessionMutationBusy, db)
      else
        .ok (.serverSessionMutationReserved,
          { db with mutations := db.mutations ++ [⟨request, attempt⟩] })
    else .ok (.serverSessionMutationSessionMissing, db)
  else .ok (.serverSessionMutationOwnerUnavailable, db)

def releaseServerSessionMutation (request : ServerSessionMutation) : Transaction Unit := fun db =>
  .ok ((), { db with mutations := db.mutations.filter fun row =>
    ¬(row.mutation.key = request.key ∧
      row.mutation.serverSessionMutationOwnerInstanceId =
        request.serverSessionMutationOwnerInstanceId ∧
      row.mutation.serverSessionMutationCreatedAt = request.serverSessionMutationCreatedAt) })

/-! ### Turns -/

def requestServerTurnCancellation (boundary : ServerTurnBoundary) (turnId : Uuid)
    (requestedAt : UTCTime) : Transaction (Option StoredServerTurn) := fun db =>
  let matching (row : TurnRow) : Bool :=
    decide (row.turn.storedServerTurnId = turnId) &&
      decide (row.turn.storedServerTurnBoundary = boundary) && row.active
  match updateTurns matching
    (fun row =>
      { row with
        cancellationRequestedAt := some (row.cancellationRequestedAt.getD requestedAt) }) db with
  | .error err => .error err
  | .ok db' => .ok ((db.turns.find? matching).map (·.turn), db')

def markServerTurnRunning (boundary : ServerTurnBoundary) (instanceId turnId : Uuid)
    (startedAt : UTCTime) : Transaction Bool := fun db =>
  let matching (row : TurnRow) : Bool :=
    decide (row.turn.storedServerTurnId = turnId) &&
      decide (row.turn.storedServerTurnBoundary = boundary) &&
      decide (row.owner = instanceId) && row.active
  match updateTurns matching
    (fun row =>
      { row with
        turn :=
          { row.turn with
            storedServerTurnStatus := .serverTurnRunning
            storedServerTurnStartedAt :=
              some (row.turn.storedServerTurnStartedAt.getD startedAt) } }) db with
  | .error err => .error err
  | .ok db' => .ok (db.turns.any matching, db')

/-- Each column of the result, unless the turn is over. -/
def finishedTurn (terminal : ServerTurnTerminal) (turn : StoredServerTurn) : StoredServerTurn :=
  if isActive turn.storedServerTurnStatus then
    { turn with
      storedServerTurnStatus := terminal.terminalServerTurnStatus
      storedServerTurnFinishedAt := some terminal.terminalServerTurnFinishedAt
      storedServerTurnAssistantText := terminal.terminalServerTurnAssistantText
      storedServerTurnAssistantTextTruncated := terminal.terminalServerTurnAssistantTextTruncated
      storedServerTurnResponseId := terminal.terminalServerTurnResponseId
      storedServerTurnIncompleteReason := terminal.terminalServerTurnIncompleteReason
      storedServerTurnIncompleteReasoningTokens :=
        terminal.terminalServerTurnIncompleteReasoningTokens
      storedServerTurnError := terminal.terminalServerTurnError }
  else turn

def finishServerTurn (boundary : ServerTurnBoundary) (instanceId turnId : Uuid)
    (terminal : ServerTurnTerminal) : Transaction (Option StoredServerTurn) := fun db =>
  if isTerminal terminal.terminalServerTurnStatus then
    let matching (row : TurnRow) : Bool :=
      decide (row.turn.storedServerTurnId = turnId) &&
        decide (row.turn.storedServerTurnBoundary = boundary) && decide (row.owner = instanceId)
    match updateTurns matching
      (fun row => { row with turn := finishedTurn terminal row.turn }) db with
    | .error err => .error err
    | .ok db' => .ok ((db.turns.find? matching).map (finishedTurn terminal ·.turn), db')
  else
    .error (.storeDataError
      "server turn terminal transition requires a terminal status".toList)

/-! ### Owners -/

def listServerTurnOwnerRecoveryCandidates (instanceId : Uuid) (db : Database) : List Uuid :=
  db.owners.keys.filter fun owner =>
    owner ≠ instanceId ∧ (db.owners.lookup owner).any (·.revokedAt.isNone)

/-- Insert the registration or refresh it, unless it is revoked. -/
def refreshOwner (instanceId : Uuid) (now : UTCTime) (db : Database) : Option Database :=
  match db.owners.lookup instanceId with
  | some owner =>
      if owner.revokedAt.isNone then
        some { db with owners := db.owners.insert instanceId { owner with lastHeartbeatAt := now } }
      else none
  | none => some { db with owners := db.owners.insert instanceId ⟨now, none⟩ }

/-- The owner is another one, among those whose host lock the caller has, and neither its action
lock nor the lock of its connection is held. -/
def disconnectedOwner (live actionFenced : Uuid → Bool) (instanceId : Uuid)
    (recoverableOwners : List Uuid) (db : Database) (owner : Uuid) : Bool :=
  decide (owner ≠ instanceId) && (db.owners.lookup owner).any (·.revokedAt.isNone) &&
    decide (owner ∈ recoverableOwners) && !actionFenced owner && !live owner

/-- Revoke the disconnected owners; drop their mutations and fail their turns. -/
def interruptDisconnectedServerTurns (live actionFenced : Uuid → Bool) (instanceId : Uuid)
    (recoverableOwners : List Uuid) (now : UTCTime) (db : Database) :
    Except StoreError Database :=
  let revoked := disconnectedOwner live actionFenced instanceId recoverableOwners db
  interruptTurns revoked now "agent server owner disconnected before the turn completed".toList
    { db with
      owners := db.owners.mapWithKey fun owner row =>
        if revoked owner then { row with revokedAt := some now } else row
      mutations := db.mutations.filter fun row => !revoked row.owner }

/-- The transaction of `heartbeatServerTurnOwner`, with the owners whose host locks were free. -/
def heartbeatServerTurnOwner (live actionFenced : Uuid → Bool) (instanceId : Uuid)
    (recoverableOwners : List Uuid) (now : UTCTime) : Transaction Bool := fun db =>
  match refreshOwner instanceId now db with
  | none => .ok (false, db)
  | some refreshed =>
      match interruptDisconnectedServerTurns live actionFenced instanceId recoverableOwners now
        refreshed with
      | .error err => .error err
      | .ok db' => .ok (true, db')

/-- The transaction of `releaseServerTurnOwner`: fail the turns of the owner and delete its
registration, and with it its mutations. -/
def releaseServerTurnOwner (actionFenced : Uuid → Bool) (instanceId : Uuid) (now : UTCTime) :
    Transaction Bool := fun db =>
  if actionFenced instanceId then .ok (false, db)
  else
    match interruptTurns (fun owner => decide (owner = instanceId)) now
      "agent server stopped before the turn completed".toList db with
    | .error err => .error err
    | .ok db' =>
        .ok (true,
          { db' with
            owners := db'.owners.delete instanceId
            mutations := db'.mutations.filter fun row => row.owner ≠ instanceId })

/-! ### What the transactions do -/

variable {db db' : Database} {live actionFenced : Uuid → Bool} {now : UTCTime}

/-- A change of the rows of turns that keeps who they belong to, and the terminal ones as they are. -/
structure RowUpdate (change : TurnRow → TurnRow) : Prop where
  turnId : ∀ row, (change row).turn.storedServerTurnId = row.turn.storedServerTurnId
  key : ∀ row, (change row).key = row.key
  owner : ∀ row, (change row).owner = row.owner
  terminal : ∀ row, row.active = false → change row = row

theorem RowUpdate.active {change : TurnRow → TurnRow} (h : RowUpdate change) {row : TurnRow}
    (hactive : (change row).active = true) : row.active = true := by
  by_contra hterminal
  rw [Bool.not_eq_true] at hterminal
  rw [h.terminal row hterminal, hterminal] at hactive
  cases hactive

/-- What an update of the turns does, if it keeps each matching row's number, session and owner. -/
theorem updateTurns_ok {matching : TurnRow → Bool} {change : TurnRow → TurnRow}
    (h : updateTurns matching change db = .ok db')
    (hkeep : ∀ row, (change row).turn.storedServerTurnId = row.turn.storedServerTurnId ∧
      (change row).key = row.key ∧ (change row).owner = row.owner)
    (hterminal : ∀ row, matching row = true → row.active = false → change row = row) :
    ∃ f, RowUpdate f ∧ (∀ row, matching row = false → f row = row) ∧
      (∀ row, matching row = true → f row = change row) ∧
      db' = { db with turns := db.turns.map f } := by
  unfold updateTurns at h
  split at h
  · refine ⟨fun row => if matching row then change row else row, ?_, ?_, ?_,
      (Except.ok.inj h).symm⟩
    · constructor
      all_goals
        intro row
        have hrow := hkeep row
        have hsame := hterminal row
        by_cases hm : matching row = true
        · simp only [hm, if_true]
          tauto
        · simp [hm]
    · intro row hm
      simp [hm]
    · intro row hm
      simp [hm]
  · cases h

variable {boundary : ServerTurnBoundary}

theorem requestServerTurnCancellation_ok {turnId : Uuid}
    {requestedAt : UTCTime} {result : Option StoredServerTurn}
    (h : requestServerTurnCancellation boundary turnId requestedAt db = .ok (result, db')) :
    ∃ change, RowUpdate change ∧ (∀ row, (change row).turn = row.turn) ∧
      db' = { db with turns := db.turns.map change } := by
  unfold requestServerTurnCancellation at h
  dsimp only at h
  split at h
  · cases h
  · next updated hupdate =>
    have hdb : updated = db' := (Prod.mk.inj (Except.ok.inj h)).2
    obtain ⟨f, hf, hother, hmatching, hupdated⟩ :=
      updateTurns_ok hupdate (fun _ => ⟨rfl, rfl, rfl⟩) (fun row hm hterminal => by
        simp [hterminal] at hm)
    refine ⟨f, hf, ?_, hdb ▸ hupdated⟩
    intro row
    cases hm : (decide (row.turn.storedServerTurnId = turnId) &&
      decide (row.turn.storedServerTurnBoundary = boundary) && row.active) with
    | false => rw [hother row hm]
    | true => rw [hmatching row hm]

variable {instanceId : Uuid}

theorem markServerTurnRunning_ok {turnId : Uuid}
    {startedAt : UTCTime} {result : Bool}
    (h : markServerTurnRunning boundary instanceId turnId startedAt db = .ok (result, db')) :
    ∃ change, RowUpdate change ∧ (∀ row, row.owner ≠ instanceId → change row = row) ∧
      db' = { db with turns := db.turns.map change } := by
  unfold markServerTurnRunning at h
  dsimp only at h
  split at h
  · cases h
  · next updated hupdate =>
    have hdb : updated = db' := (Prod.mk.inj (Except.ok.inj h)).2
    obtain ⟨f, hf, hother, -, hupdated⟩ :=
      updateTurns_ok hupdate (fun _ => ⟨rfl, rfl, rfl⟩) (fun row hm hterminal => by
        simp [hterminal] at hm)
    refine ⟨f, hf, ?_, hdb ▸ hupdated⟩
    intro row hne
    exact hother row (by simp [hne])

theorem finishedTurn_of_terminal {terminal : ServerTurnTerminal} {turn : StoredServerTurn}
    (h : isActive turn.storedServerTurnStatus = false) : finishedTurn terminal turn = turn := by
  simp [finishedTurn, h]

theorem finishServerTurn_ok {turnId : Uuid}
    {terminal : ServerTurnTerminal} {result : Option StoredServerTurn}
    (h : finishServerTurn boundary instanceId turnId terminal db = .ok (result, db')) :
    ∃ change, RowUpdate change ∧ (∀ row, row.owner ≠ instanceId → change row = row) ∧
      db' = { db with turns := db.turns.map change } := by
  unfold finishServerTurn at h
  split at h
  · dsimp only at h
    split at h
    · cases h
    · next updated hupdate =>
      have hdb : updated = db' := (Prod.mk.inj (Except.ok.inj h)).2
      have hkeep : ∀ row : TurnRow,
          (finishedTurn terminal row.turn).storedServerTurnId = row.turn.storedServerTurnId ∧
            TurnRow.key { row with turn := finishedTurn terminal row.turn } = row.key ∧
            (finishedTurn terminal row.turn).storedServerTurnOwnerInstanceId = row.owner := by
        intro row
        unfold finishedTurn TurnRow.key
        split <;> exact ⟨rfl, rfl, rfl⟩
      -- each column of a terminal row is set to itself
      obtain ⟨f, hf, hother, -, hupdated⟩ :=
        updateTurns_ok hupdate hkeep (fun row _ hterminal => by
          rw [finishedTurn_of_terminal hterminal])
      refine ⟨f, hf, ?_, hdb ▸ hupdated⟩
      intro row hne
      exact hother row (by simp [hne])
  · cases h

theorem interruptTurns_ok {owners : Uuid → Bool} {errorText : Text}
    (h : interruptTurns owners now errorText db = .ok db') :
    ∃ change, RowUpdate change ∧ (∀ row, owners row.owner = false → change row = row) ∧
      (∀ row, owners row.owner = true → (change row).active = false) ∧
      db' = { db with turns := db.turns.map change } := by
  obtain ⟨f, hf, hother, hmatching, hupdated⟩ :=
    updateTurns_ok h (fun _ => ⟨rfl, rfl, rfl⟩) (fun row hm hterminal => by
      simp [hterminal] at hm)
  refine ⟨f, hf, ?_, ?_, hupdated⟩
  · intro row howner
    exact hother row (by simp [howner])
  · intro row howner
    by_cases hactive : row.active = true
    · rw [hmatching row (by simp [hactive, howner])]
      rfl
    · rw [Bool.not_eq_true] at hactive
      rw [hf.terminal row hactive, hactive]

theorem ownerAvailable_iff :
    ownerAvailable live instanceId db = true ↔
      (∃ owner, db.owners.lookup instanceId = some owner ∧ owner.revokedAt = none) ∧
        live instanceId = true := by
  unfold ownerAvailable
  cases db.owners.lookup instanceId with
  | none | some owner => simp

/-- **What the reservation of a turn may insert**: a queued turn with a fresh number, in a session
without mutation or active turn, for an available owner. -/
theorem reserveServerTurn_ok {request : ReserveServerTurn} {result : ServerTurnReservation}
    (h : reserveServerTurn live request db = .ok (result, db')) :
    db' = db ∨
      (ownerAvailable live request.reserveServerTurnOwnerInstanceId db = true ∧
        mutationExists request.key db = false ∧ turnConflicts (queuedRow request) db = false ∧
        db' = { db with turns := db.turns ++ [queuedRow request] }) := by
  unfold reserveServerTurn insertServerTurn at h
  split at h
  · next havailable =>
    split at h
    · split at h
      · exact .inl (Prod.mk.inj (Except.ok.inj h)).2.symm
      · exact .inl (Prod.mk.inj (Except.ok.inj h)).2.symm
    · split at h
      · exact .inl (Prod.mk.inj (Except.ok.inj h)).2.symm
      · next hmutation =>
        rw [Bool.not_eq_true] at hmutation
        split at h
        · cases h
        · next inserted updated hinsert =>
          have hdb : updated = db' := (Prod.mk.inj (Except.ok.inj h)).2
          split at hinsert
          · split at hinsert
            · split at hinsert
              · cases hinsert
              · next hconflict =>
                rw [Bool.not_eq_true] at hconflict
                have hnew := (Prod.mk.inj (some.inj (Except.ok.inj hinsert))).2
                exact .inr ⟨havailable, hmutation, hconflict, hdb.symm.trans hnew.symm⟩
            · cases hinsert
          · cases hinsert
        · split at h
          · exact .inl (Prod.mk.inj (Except.ok.inj h)).2.symm
          · split at h
            · cases h
            · exact .inl (Prod.mk.inj (Except.ok.inj h)).2.symm
  · exact .inl (Prod.mk.inj (Except.ok.inj h)).2.symm

/-- **What the reservation of a mutation may insert**: the row of the request, in a session without
mutation or active turn, for an available owner. -/
theorem reserveServerSessionMutation_ok {request : ServerSessionMutation} {attempt : ℕ}
    {result : ServerSessionMutationReservation}
    (h : reserveServerSessionMutation live request attempt db = .ok (result, db')) :
    db' = db ∨
      (ownerAvailable live request.serverSessionMutationOwnerInstanceId db = true ∧
        (∀ row ∈ db.turns, row.active = true → row.key ≠ request.key) ∧
        mutationExists request.key db = false ∧
        db' = { db with mutations := db.mutations ++ [⟨request, attempt⟩] }) := by
  unfold reserveServerSessionMutation at h
  split at h
  · next havailable =>
    split at h
    · split at h
      · exact .inl (Prod.mk.inj (Except.ok.inj h)).2.symm
      · next hactive =>
        split at h
        · exact .inl (Prod.mk.inj (Except.ok.inj h)).2.symm
        · next hmutation =>
          rw [Bool.not_eq_true] at hmutation
          have hdb := (Prod.mk.inj (Except.ok.inj h)).2
          refine .inr ⟨havailable, ?_, hmutation, hdb.symm⟩
          intro row hrow hturn hkey
          exact hactive (List.any_eq_true.mpr ⟨row, hrow, by simp [hturn, hkey]⟩)
    · exact .inl (Prod.mk.inj (Except.ok.inj h)).2.symm
  · exact .inl (Prod.mk.inj (Except.ok.inj h)).2.symm

theorem refreshOwner_eq_some (h : refreshOwner instanceId now db = some db') :
    (∀ owner, db.owners.lookup instanceId = some owner → owner.revokedAt = none) ∧
      ∃ owner, owner.revokedAt = none ∧
        db' = { db with owners := db.owners.insert instanceId owner } := by
  unfold refreshOwner at h
  split at h
  · next owner hlookup =>
    split at h
    · next hvalid =>
      rw [isNone_iff_eq_none] at hvalid
      refine ⟨?_, { owner with lastHeartbeatAt := now }, hvalid, (some.inj h).symm⟩
      intro other hother
      rw [hlookup] at hother
      exact some.inj hother ▸ hvalid
    · cases h
  · next hlookup =>
    refine ⟨?_, _, rfl, (some.inj h).symm⟩
    intro other hother
    rw [hlookup] at hother
    cases hother

/-- What a heartbeat does: it refreshes its own registration, and it revokes disconnected owners,
whose turns it fails and whose mutations it drops. -/
theorem heartbeatServerTurnOwner_ok {recoverableOwners : List Uuid} {result : Bool}
    (h : heartbeatServerTurnOwner live actionFenced instanceId recoverableOwners now db =
      .ok (result, db')) :
    db' = db ∨
      ∃ (refreshed : Database) (change : TurnRow → TurnRow),
        refreshOwner instanceId now db = some refreshed ∧ RowUpdate change ∧
        let revoked := disconnectedOwner live actionFenced instanceId recoverableOwners refreshed
        (∀ row, revoked row.owner = false → change row = row) ∧
          (∀ row, revoked row.owner = true → (change row).active = false) ∧
          db' = { refreshed with
            owners := refreshed.owners.mapWithKey fun owner row =>
              if revoked owner then { row with revokedAt := some now } else row
            mutations := db.mutations.filter fun row => !revoked row.owner
            turns := db.turns.map change } := by
  unfold heartbeatServerTurnOwner at h
  split at h
  · exact .inl (Prod.mk.inj (Except.ok.inj h)).2.symm
  · next refreshed hrefresh =>
    split at h
    · cases h
    · next updated hinterrupt =>
      have hdb : updated = db' := (Prod.mk.inj (Except.ok.inj h)).2
      obtain ⟨change, hupdate, hother, hfailed, hupdated⟩ := interruptTurns_ok hinterrupt
      obtain ⟨-, owner, -, hrefreshed⟩ := refreshOwner_eq_some hrefresh
      refine .inr ⟨refreshed, change, hrefresh, hupdate, hother, hfailed, ?_⟩
      rw [← hdb, hupdated, hrefreshed]

theorem releaseServerTurnOwner_ok {result : Bool}
    (h : releaseServerTurnOwner actionFenced instanceId now db = .ok (result, db')) :
    db' = db ∨
      ∃ change, RowUpdate change ∧ (∀ row, row.owner ≠ instanceId → change row = row) ∧
        (∀ row, row.owner = instanceId → (change row).active = false) ∧
        db' = { db with
          turns := db.turns.map change
          owners := db.owners.delete instanceId
          mutations := db.mutations.filter fun row => row.owner ≠ instanceId } := by
  unfold releaseServerTurnOwner at h
  split at h
  · exact .inl (Prod.mk.inj (Except.ok.inj h)).2.symm
  · split at h
    · cases h
    · next updated hinterrupt =>
      have hdb := (Prod.mk.inj (Except.ok.inj h)).2
      obtain ⟨change, hupdate, hother, hfailed, hupdated⟩ := interruptTurns_ok hinterrupt
      refine .inr ⟨change, hupdate, ?_, ?_, ?_⟩
      · intro row hne
        exact hother row (decide_eq_false hne)
      · intro row heq
        exact hfailed row (decide_eq_true heq)
      · rw [← hdb, hupdated]

end Store

end HaskellAgent
