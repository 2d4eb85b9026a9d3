import HaskellAgent.Lib.Machine
import HaskellAgent.Store.ServerTurn

/-!
# Owners of submitted turns

Each server process registers as an owner.  Its lease is a connection that holds a lock in the
database as long as it lives.  Before an owner acts it opens an action fence: a shared lock on a file
of the host, a shared lock in the database, and a look at its registration.  A process that finds an
owner's connection gone revokes the owner, if it gets the exclusive forms of these locks.

Processes crash, connections are lost and operations are retried at any time.
-/

open List Option FinMap Machine

namespace HaskellAgent

namespace Store

inductive LeasePhase
  | idle
  /-- Taking the host locks of the candidates, with these taken so far, the last one first. -/
  | locking (candidates acquired : List Uuid)
  /-- The transaction is over, and these host locks are still held. -/
  | unlocking (acquired : List Uuid)
  /-- The lease is closed to others, and the host lock of its own owner is held. -/
  | releasing
  | released
  deriving DecidableEq

/-- A lease that has not been closed. -/
structure Lease where
  instanceId : Uuid
  /-- The connection is up, and holds the lock of the owner. -/
  connected : Bool
  phase : LeasePhase
  deriving DecidableEq

/-- The exclusive host locks of a lease. -/
def Lease.hostLocks (lease : Lease) : List Uuid :=
  match lease.phase with
  | .idle => []
  | .locking _ acquired => acquired
  | .unlocking acquired => acquired
  | .releasing => [lease.instanceId]
  | .released => [lease.instanceId]

inductive FencePhase
  | hostLocked
  | databaseLocked
  | opened
  deriving DecidableEq

/-- An action fence, from when its shared host lock is taken until it is given back. -/
structure ActionFence where
  instanceId : Uuid
  /-- The connection is up, and holds the shared action lock. -/
  connected : Bool
  phase : FencePhase
  deriving DecidableEq

structure OwnershipWorld where
  db : Database
  leases : FinMap ℕ Lease
  fences : FinMap ℕ ActionFence
  /-- History: every attempt to reserve a mutation. -/
  attempts : List ServerSessionMutation

def OwnershipWorld.init : OwnershipWorld where
  db := ⟨[], [], [], .empty⟩
  leases := .empty
  fences := .empty
  attempts := []

/-- The lock of the owner's connection is held. -/
def OwnershipWorld.live (w : OwnershipWorld) (instanceId : Uuid) : Bool :=
  w.leases.elems.any fun lease => lease.connected ∧ lease.instanceId = instanceId

def OwnershipWorld.actionFenced (w : OwnershipWorld) (instanceId : Uuid) : Bool :=
  w.fences.elems.any fun fence => fence.connected ∧ fence.instanceId = instanceId

def OwnershipWorld.hostShared (w : OwnershipWorld) (instanceId : Uuid) : Bool :=
  w.fences.elems.any fun fence => fence.instanceId = instanceId

def OwnershipWorld.hostExclusive (w : OwnershipWorld) (instanceId : Uuid) : Bool :=
  w.leases.elems.any fun lease => instanceId ∈ lease.hostLocks

inductive OwnershipEvent
  | saveSession (row : SessionRow)
  | deleteSession (gatewayIdentity : Option Text) (sessionKey : Text) (now : UTCTime)
  | reserveTurn (request : ReserveServerTurn)
  | reserveMutation (request : ServerSessionMutation)
  /-- Release what an attempt has reserved, for the first time or again. -/
  | releaseMutation (attempt : ℕ)
  | requestCancellation (boundary : ServerTurnBoundary) (turnId : Uuid) (now : UTCTime)
  | markRunning (boundary : ServerTurnBoundary) (instanceId turnId : Uuid) (now : UTCTime)
  | finish (boundary : ServerTurnBoundary) (instanceId turnId : Uuid)
      (terminal : ServerTurnTerminal)
  | openLease (lease : ℕ) (instanceId : Uuid)
  /-- `heartbeatServerTurnOwner` begins. -/
  | listCandidates (lease : ℕ)
  | tryLock (lease : ℕ)
  | heartbeat (lease : ℕ) (now : UTCTime)
  /-- `heartbeatServerTurnOwner` ends, at whatever point. -/
  | unlock (lease : ℕ)
  | loseLease (lease : ℕ)
  | abandonLease (lease : ℕ)
  /-- `releaseServerTurnOwner` begins. -/
  | beginRelease (lease : ℕ)
  | release (lease : ℕ) (now : UTCTime)
  | endRelease (lease : ℕ)
  | lockFence (fence : ℕ) (instanceId : Uuid)
  | lockFenceDatabase (fence : ℕ)
  | validateFence (fence : ℕ)
  | loseFence (fence : ℕ)
  | closeFence (fence : ℕ)
  /-- Every process of the owner dies. -/
  | crash (instanceId : Uuid)
  deriving DecidableEq

/-- The tables after a transaction. -/
def OwnershipWorld.commit {α : Type} (w : OwnershipWorld) (transaction : Transaction α) :
    OwnershipWorld :=
  match transaction w.db with
  | .ok (_, db) => { w with db := db }
  | .error _ => w

def OwnershipWorld.setLease (w : OwnershipWorld) (i : ℕ) (lease : Lease) : OwnershipWorld :=
  { w with leases := w.leases.insert i lease }

def OwnershipWorld.setFence (w : OwnershipWorld) (i : ℕ) (fence : ActionFence) : OwnershipWorld :=
  { w with fences := w.fences.insert i fence }

def OwnershipWorld.openLease (w : OwnershipWorld) (i : ℕ) (instanceId : Uuid) :
    Option OwnershipWorld :=
  match w.leases.lookup i with
  | some _ => none
  | none =>
      if w.live instanceId then none
      else some (w.setLease i ⟨instanceId, true, .idle⟩)

/-- A step of a lease in its phase. -/
def OwnershipWorld.leaseStep (w : OwnershipWorld) (i : ℕ)
    (next : Lease → Option OwnershipWorld) : Option OwnershipWorld :=
  match w.leases.lookup i with
  | none => none
  | some lease => next lease

def OwnershipWorld.listCandidates (w : OwnershipWorld) (i : ℕ) (lease : Lease) :
    Option OwnershipWorld :=
  match lease.phase with
  | .idle =>
      if lease.connected then
        some (w.setLease i { lease with
          phase := .locking (listServerTurnOwnerRecoveryCandidates lease.instanceId w.db) [] })
      else none
  | _ => none

/-- `tryAcquireExclusiveActionLock` for the next candidate, which is passed over if its lock is
held. -/
def OwnershipWorld.tryLock (w : OwnershipWorld) (i : ℕ) (lease : Lease) : Option OwnershipWorld :=
  match lease.phase with
  | .locking (candidate :: remaining) acquired =>
      if w.hostShared candidate ∨ w.hostExclusive candidate then
        some (w.setLease i { lease with phase := .locking remaining acquired })
      else some (w.setLease i { lease with phase := .locking remaining (candidate :: acquired) })
  | _ => none

def OwnershipWorld.heartbeat (w : OwnershipWorld) (i : ℕ) (now : UTCTime) (lease : Lease) :
    Option OwnershipWorld :=
  match lease.phase with
  | .locking [] acquired =>
      if lease.connected then
        some ((w.commit (heartbeatServerTurnOwner w.live w.actionFenced lease.instanceId
          acquired.reverse now)).setLease i { lease with phase := .unlocking acquired })
      else none
  | _ => none

def OwnershipWorld.unlock (w : OwnershipWorld) (i : ℕ) (lease : Lease) : Option OwnershipWorld :=
  match lease.phase with
  | .locking _ _ => some (w.setLease i { lease with phase := .idle })
  | .unlocking _ => some (w.setLease i { lease with phase := .idle })
  | _ => none

def OwnershipWorld.beginRelease (w : OwnershipWorld) (i : ℕ) (lease : Lease) :
    Option OwnershipWorld :=
  match lease.phase with
  | .idle =>
      if w.hostShared lease.instanceId ∨ w.hostExclusive lease.instanceId then
        some { w with leases := w.leases.delete i }
      else some (w.setLease i { lease with phase := .releasing })
  | _ => none

def OwnershipWorld.release (w : OwnershipWorld) (i : ℕ) (now : UTCTime) (lease : Lease) :
    Option OwnershipWorld :=
  match lease.phase with
  | .releasing =>
      if lease.connected then
        some ((w.commit (releaseServerTurnOwner w.actionFenced lease.instanceId now)).setLease i
          { lease with phase := .released })
      else none
  | _ => none

def OwnershipWorld.endLease (w : OwnershipWorld) (i : ℕ) (phases : List LeasePhase)
    (lease : Lease) : Option OwnershipWorld :=
  if lease.phase ∈ phases then some { w with leases := w.leases.delete i } else none

def OwnershipWorld.lockFence (w : OwnershipWorld) (i : ℕ) (instanceId : Uuid) :
    Option OwnershipWorld :=
  match w.fences.lookup i with
  | some _ => none
  | none =>
      -- the shared lock is waited for
      if w.hostExclusive instanceId then none
      else some (w.setFence i ⟨instanceId, false, .hostLocked⟩)

def OwnershipWorld.fenceStep (w : OwnershipWorld) (i : ℕ)
    (next : ActionFence → Option OwnershipWorld) : Option OwnershipWorld :=
  match w.fences.lookup i with
  | none => none
  | some fence => next fence

def OwnershipWorld.lockFenceDatabase (w : OwnershipWorld) (i : ℕ) (fence : ActionFence) :
    Option OwnershipWorld :=
  match fence.phase with
  | .hostLocked => some (w.setFence i { fence with connected := true, phase := .databaseLocked })
  | _ => none

def OwnershipWorld.validateFence (w : OwnershipWorld) (i : ℕ) (fence : ActionFence) :
    Option OwnershipWorld :=
  match fence.phase with
  | .databaseLocked =>
      if fence.connected then
        if ownerAvailable w.live fence.instanceId w.db then
          some (w.setFence i { fence with phase := .opened })
        else some { w with fences := w.fences.delete i }
      else none
  | _ => none

def OwnershipWorld.step (w : OwnershipWorld) : OwnershipEvent → Option OwnershipWorld
  | .saveSession row =>
      if w.db.sessions.any (·.sessionKey = row.sessionKey) then none
      else some { w with db := { w.db with sessions := w.db.sessions ++ [row] } }
  | .deleteSession gatewayIdentity sessionKey now =>
      some { w with db := { w.db with sessions := w.db.sessions.map fun row =>
        if row.gatewayIdentity = gatewayIdentity ∧ row.sessionKey = sessionKey then
          { row with deletedAt := some now }
        else row } }
  | .reserveTurn request => some (w.commit (reserveServerTurn w.live request))
  | .reserveMutation request =>
      some { w.commit (reserveServerSessionMutation w.live request w.attempts.length) with
        attempts := w.attempts ++ [request] }
  | .releaseMutation attempt =>
      match w.attempts[attempt]? with
      | none => none
      | some request => some (w.commit (releaseServerSessionMutation request))
  | .requestCancellation boundary turnId now =>
      some (w.commit (requestServerTurnCancellation boundary turnId now))
  | .markRunning boundary instanceId turnId now =>
      some (w.commit (markServerTurnRunning boundary instanceId turnId now))
  | .finish boundary instanceId turnId terminal =>
      some (w.commit (finishServerTurn boundary instanceId turnId terminal))
  | .openLease i instanceId => w.openLease i instanceId
  | .listCandidates i => w.leaseStep i (w.listCandidates i)
  | .tryLock i => w.leaseStep i (w.tryLock i)
  | .heartbeat i now => w.leaseStep i (w.heartbeat i now)
  | .unlock i => w.leaseStep i (w.unlock i)
  | .loseLease i => w.leaseStep i fun lease => some (w.setLease i { lease with connected := false })
  | .abandonLease i => w.leaseStep i (w.endLease i [.idle])
  | .beginRelease i => w.leaseStep i (w.beginRelease i)
  | .release i now => w.leaseStep i (w.release i now)
  | .endRelease i => w.leaseStep i (w.endLease i [.releasing, .released])
  | .lockFence i instanceId => w.lockFence i instanceId
  | .lockFenceDatabase i => w.fenceStep i (w.lockFenceDatabase i)
  | .validateFence i => w.fenceStep i (w.validateFence i)
  | .loseFence i => w.fenceStep i fun fence => some (w.setFence i { fence with connected := false })
  | .closeFence i => w.fenceStep i fun _ => some { w with fences := w.fences.delete i }
  | .crash instanceId =>
      some { w with
        leases := w.leases.filter (·.instanceId ≠ instanceId)
        fences := w.fences.filter (·.instanceId ≠ instanceId) }

/-- The owner that acts in a step; a client that asks for a cancellation is none. -/
def OwnershipEvent.instance? (w : OwnershipWorld) : OwnershipEvent → Option Uuid
  | .reserveTurn request => some request.reserveServerTurnOwnerInstanceId
  | .reserveMutation request => some request.serverSessionMutationOwnerInstanceId
  | .releaseMutation attempt =>
      w.attempts[attempt]?.map (·.serverSessionMutationOwnerInstanceId)
  | .markRunning _ instanceId _ _ => some instanceId
  | .finish _ instanceId _ _ => some instanceId
  | .openLease _ instanceId => some instanceId
  | .listCandidates i | .tryLock i | .heartbeat i _ | .unlock i | .loseLease i | .abandonLease i
  | .beginRelease i | .release i _ | .endRelease i => (w.leases.lookup i).map (·.instanceId)
  | .lockFence _ instanceId => some instanceId
  | .lockFenceDatabase i | .validateFence i | .loseFence i | .closeFence i =>
      (w.fences.lookup i).map (·.instanceId)
  | .crash instanceId => some instanceId
  | .saveSession _ | .deleteSession _ _ _ | .requestCancellation _ _ _ => none

/-! ### What a step does to the tables -/

/-- The owner is registered, and not revoked. -/
def ValidOwner (db : Database) (instanceId : Uuid) : Prop :=
  ∃ owner, db.owners.lookup instanceId = some owner ∧ owner.revokedAt = none

/-- The tables and the attempts after a step in which the owner acts, if one does. -/
inductive TablesChange (w : OwnershipWorld) :
    Option Uuid → Database → List ServerSessionMutation → Prop
  | kept {actor : Option Uuid} {sessions : List SessionRow}
      {attempts : List ServerSessionMutation} (hattempts : w.attempts <+: attempts) :
      TablesChange w actor { w.db with sessions := sessions } attempts
  | updated {actor : Option Uuid} {change : TurnRow → TurnRow} (hchange : RowUpdate change)
      (hother : ∀ row : TurnRow, actor ≠ some row.owner → (change row).turn = row.turn) :
      TablesChange w actor { w.db with turns := w.db.turns.map change } w.attempts
  | turnReserved {request : ReserveServerTurn}
      (howner : ValidOwner w.db request.reserveServerTurnOwnerInstanceId)
      (hmutation : mutationExists request.key w.db = false)
      (hconflict : turnConflicts (queuedRow request) w.db = false) :
      TablesChange w (some request.reserveServerTurnOwnerInstanceId)
        { w.db with turns := w.db.turns ++ [queuedRow request] } w.attempts
  | mutationReserved {request : ServerSessionMutation}
      (howner : ValidOwner w.db request.serverSessionMutationOwnerInstanceId)
      (hactive : ∀ row ∈ w.db.turns, row.active = true → row.key ≠ request.key)
      (hmutation : mutationExists request.key w.db = false) :
      TablesChange w (some request.serverSessionMutationOwnerInstanceId)
        { w.db with mutations := w.db.mutations ++ [⟨request, w.attempts.length⟩] }
        (w.attempts ++ [request])
  | mutationReleased {request : ServerSessionMutation} {attempt : ℕ}
      (hattempt : w.attempts[attempt]? = some request) {keep : MutationRow → Bool}
      (hkeep : ∀ row, keep row = false → row.mutation = request) :
      TablesChange w (some request.serverSessionMutationOwnerInstanceId)
        { w.db with mutations := w.db.mutations.filter keep } w.attempts
  | heartbeat {instanceId : Uuid} {owner : OwnerRow} {revoked : Uuid → Bool}
      {change : TurnRow → TurnRow} {now : UTCTime} (hvalid : owner.revokedAt = none)
      (hchange : RowUpdate change)
      (hother : ∀ row, revoked row.owner = false → change row = row)
      (hfailed : ∀ row, revoked row.owner = true → (change row).active = false)
      (hexclusive : ∀ o, revoked o = true → w.hostExclusive o = true) :
      TablesChange w (some instanceId)
        { w.db with
          turns := w.db.turns.map change
          mutations := w.db.mutations.filter fun row => !revoked row.owner
          owners := (w.db.owners.insert instanceId owner).mapWithKey fun o row =>
            if revoked o then { row with revokedAt := some now } else row } w.attempts
  | released {instanceId : Uuid} {change : TurnRow → TurnRow} (hchange : RowUpdate change)
      (hother : ∀ row, row.owner ≠ instanceId → change row = row)
      (hfailed : ∀ row, row.owner = instanceId → (change row).active = false) :
      TablesChange w (some instanceId)
        { w.db with
          turns := w.db.turns.map change
          owners := w.db.owners.delete instanceId
          mutations := w.db.mutations.filter fun row => row.owner ≠ instanceId } w.attempts

variable {w w' : OwnershipWorld} {e : OwnershipEvent}

variable {actor : Option Uuid}

theorem TablesChange.same : TablesChange w actor w.db w.attempts :=
  .kept (prefix_refl _)

variable {request : ServerSessionMutation} {fence : ActionFence} {db' : Database} {o : Uuid}
  {α : Type}

@[simp] theorem commit_leases {t : Transaction α} : (w.commit t).leases = w.leases := by
  unfold OwnershipWorld.commit
  split <;> rfl

@[simp] theorem commit_fences {t : Transaction α} : (w.commit t).fences = w.fences := by
  unfold OwnershipWorld.commit
  split <;> rfl

@[simp] theorem commit_attempts {t : Transaction α} :
    (w.commit t).attempts = w.attempts := by
  unfold OwnershipWorld.commit
  split <;> rfl

variable {attempts : List ServerSessionMutation}

/-- A transaction that fails changes nothing, so only the successful ones are looked at. -/
theorem commit_change {t : Transaction α} (hattempts : w.attempts <+: attempts)
    (h : ∀ a db', t w.db = .ok (a, db') → TablesChange w actor db' attempts) :
    TablesChange w actor (w.commit t).db attempts := by
  unfold OwnershipWorld.commit
  split
  · next a db' hok => exact h a db' hok
  · exact .kept hattempts

variable {i : ℕ}

theorem leaseStep_eq_some {next : Lease → Option OwnershipWorld} (h : w.leaseStep i next = some w') :
    ∃ lease, w.leases.lookup i = some lease ∧ next lease = some w' := by
  unfold OwnershipWorld.leaseStep at h
  split at h
  · cases h
  · next lease hlookup => exact ⟨lease, hlookup, h⟩

theorem fenceStep_eq_some {next : ActionFence → Option OwnershipWorld}
    (h : w.fenceStep i next = some w') :
    ∃ fence, w.fences.lookup i = some fence ∧ next fence = some w' := by
  unfold OwnershipWorld.fenceStep at h
  split at h
  · cases h
  · next fence hlookup => exact ⟨fence, hlookup, h⟩

variable {lease : Lease}

theorem hostExclusive_of_mem (hlease : w.leases.lookup i = some lease)
    (ho : o ∈ lease.hostLocks) : w.hostExclusive o = true :=
  List.any_eq_true.mpr ⟨lease, mem_elems.mpr ⟨i, hlease⟩, decide_eq_true ho⟩

theorem validOwner_of_available {live : Uuid → Bool} {db : Database}
    (h : ownerAvailable live o db = true) : ValidOwner db o := (ownerAvailable_iff.mp h).1

theorem heartbeat_tables {now : UTCTime} (hlease : w.leases.lookup i = some lease)
    (h : w.heartbeat i now lease = some w') :
    TablesChange w (some lease.instanceId) w'.db w'.attempts := by
  unfold OwnershipWorld.heartbeat at h
  split at h
  · next acquired hphase =>
    split at h
    · cases h
      have hsame : ((w.commit (heartbeatServerTurnOwner w.live w.actionFenced lease.instanceId
          acquired.reverse now)).setLease i { lease with phase := .unlocking acquired }).attempts =
          w.attempts := commit_attempts
      rw [hsame]
      refine commit_change (prefix_refl _) fun a db' hok => ?_
      obtain rfl | ⟨refreshed, change, hrefresh, hchange, hother, hfailed, hdb⟩ :=
        heartbeatServerTurnOwner_ok hok
      · exact .same
      · obtain ⟨-, owner, hvalid, hrefreshed⟩ := refreshOwner_eq_some hrefresh
        have hdb' := hdb
        rw [hrefreshed] at hother hfailed hdb'
        rw [hdb']
        refine .heartbeat hvalid hchange hother hfailed fun o hrevoked => ?_
        -- an owner is only revoked under its exclusive host lock
        unfold disconnectedOwner at hrevoked
        simp only [Bool.and_eq_true, decide_eq_true_eq, mem_reverse] at hrevoked
        have hmem : o ∈ lease.hostLocks := by
          unfold Lease.hostLocks
          rw [hphase]
          exact hrevoked.1.1.2
        exact hostExclusive_of_mem hlease hmem
    · cases h
  · cases h

theorem release_tables {now : UTCTime} (h : w.release i now lease = some w') :
    TablesChange w (some lease.instanceId) w'.db w'.attempts := by
  unfold OwnershipWorld.release at h
  split at h
  · split at h
    · cases h
      have hsame : ((w.commit (releaseServerTurnOwner w.actionFenced lease.instanceId
          now)).setLease i { lease with phase := .released }).attempts = w.attempts :=
        commit_attempts
      rw [hsame]
      refine commit_change (prefix_refl _) fun a db' hok => ?_
      obtain rfl | ⟨change, hchange, hother, hfailed, hdb⟩ := releaseServerTurnOwner_ok hok
      · exact .same
      · rw [hdb]
        exact .released hchange hother hfailed
    · cases h
  · cases h

/-- The step is about locks only. -/
def SameTables (w w' : OwnershipWorld) : Prop := w'.db = w.db ∧ w'.attempts = w.attempts

theorem SameTables.tables (h : SameTables w w') : TablesChange w actor w'.db w'.attempts := by
  rw [h.1, h.2]
  exact .same

theorem openLease_same (h : w.openLease i o = some w') : SameTables w w' := by
  unfold OwnershipWorld.openLease at h
  split at h
  · cases h
  · split at h
    · cases h
    · cases h
      exact ⟨rfl, rfl⟩

theorem listCandidates_same (h : w.listCandidates i lease = some w') : SameTables w w' := by
  unfold OwnershipWorld.listCandidates at h
  split at h
  · split at h
    · cases h
      exact ⟨rfl, rfl⟩
    · cases h
  · cases h

theorem tryLock_same (h : w.tryLock i lease = some w') : SameTables w w' := by
  unfold OwnershipWorld.tryLock at h
  split at h
  · split at h <;> cases some.inj h <;> exact ⟨rfl, rfl⟩
  · cases h

theorem unlock_same (h : w.unlock i lease = some w') : SameTables w w' := by
  unfold OwnershipWorld.unlock at h
  split at h
  · cases h
    exact ⟨rfl, rfl⟩
  · cases h
    exact ⟨rfl, rfl⟩
  · cases h

theorem beginRelease_same (h : w.beginRelease i lease = some w') : SameTables w w' := by
  unfold OwnershipWorld.beginRelease at h
  split at h
  · split at h <;> cases some.inj h <;> exact ⟨rfl, rfl⟩
  · cases h

theorem endLease_same {phases : List LeasePhase} (h : w.endLease i phases lease = some w') :
    SameTables w w' := by
  unfold OwnershipWorld.endLease at h
  split at h
  · cases h
    exact ⟨rfl, rfl⟩
  · cases h

theorem lockFence_same (h : w.lockFence i o = some w') : SameTables w w' := by
  unfold OwnershipWorld.lockFence at h
  split at h
  · cases h
  · split at h
    · cases h
    · cases h
      exact ⟨rfl, rfl⟩

theorem lockFenceDatabase_same (h : w.lockFenceDatabase i fence = some w') :
    SameTables w w' := by
  unfold OwnershipWorld.lockFenceDatabase at h
  split at h
  · cases h
    exact ⟨rfl, rfl⟩
  · cases h

theorem validateFence_same (h : w.validateFence i fence = some w') :
    SameTables w w' := by
  unfold OwnershipWorld.validateFence at h
  split at h
  · split at h
    · split at h <;> cases some.inj h <;> exact ⟨rfl, rfl⟩
    · cases h
  · cases h

theorem reserveMutation_tables :
    TablesChange w (some request.serverSessionMutationOwnerInstanceId)
      (w.commit (reserveServerSessionMutation w.live request w.attempts.length)).db
      (w.attempts ++ [request]) := by
  refine commit_change (prefix_append _ _) fun a db' hok => ?_
  obtain rfl | ⟨havailable, hactive, hmutation, hdb⟩ := reserveServerSessionMutation_ok hok
  · exact .kept (prefix_append _ _)
  · rw [hdb]
    exact .mutationReserved (validOwner_of_available havailable) hactive hmutation

theorem reserveTurn_tables {request : ReserveServerTurn} :
    TablesChange w (some request.reserveServerTurnOwnerInstanceId)
      (w.commit (reserveServerTurn w.live request)).db w.attempts := by
  refine commit_change (prefix_refl _) fun a db' hok => ?_
  obtain rfl | ⟨havailable, hmutation, hconflict, hdb⟩ := reserveServerTurn_ok hok
  · exact .same
  · rw [hdb]
    exact .turnReserved (validOwner_of_available havailable) hmutation hconflict

theorem releaseMutation_tables {attempt : ℕ}
    (hattempt : w.attempts[attempt]? = some request) :
    TablesChange w (some request.serverSessionMutationOwnerInstanceId)
      (w.commit (releaseServerSessionMutation request)).db w.attempts := by
  refine .mutationReleased hattempt fun row hdropped => ?_
  -- boundary, session, owner and time are all there is to a request
  simp only [ServerSessionMutation.key, SessionKey.mk.injEq, decide_not, Bool.not_eq_false',
    decide_eq_true_eq] at hdropped
  obtain ⟨⟨hboundary, hsession⟩, howner, hcreated⟩ := hdropped
  cases hrow : row.mutation with
  | mk boundary session owner created =>
    cases hrequest : request with
    | mk boundary' session' owner' created' =>
      rw [hrow, hrequest] at hboundary hsession howner hcreated
      cases hboundary
      cases hsession
      cases howner
      cases hcreated
      rfl

/-- An update of the turns that only touches those of the owner who acts. -/
theorem updated_of_owner {t : Transaction α} {instanceId : Uuid}
    (h : ∀ a db', t w.db = .ok (a, db') → ∃ change, RowUpdate change ∧
      (∀ row, row.owner ≠ instanceId → change row = row) ∧
        db' = { w.db with turns := w.db.turns.map change }) :
    TablesChange w (some instanceId) (w.commit t).db w.attempts := by
  refine commit_change (prefix_refl _) fun a db' hok => ?_
  obtain ⟨change, hchange, hother, hdb⟩ := h a db' hok
  rw [hdb]
  refine .updated hchange fun row hne => ?_
  rw [hother row fun heq => hne (congrArg some heq.symm)]

/-- **What a step may do to the tables.** -/
theorem step_tables (h : w.step e = some w') :
    TablesChange w (e.instance? w) w'.db w'.attempts := by
  cases e with
  | saveSession row =>
    unfold OwnershipWorld.step at h
    dsimp only at h
    split at h
    · cases h
    · cases h
      exact .kept (prefix_refl _)
  | deleteSession gatewayIdentity sessionKey now =>
    cases h
    exact .kept (prefix_refl _)
  | reserveTurn request =>
    cases h
    rw [commit_attempts]
    exact reserveTurn_tables
  | reserveMutation request =>
    cases h
    exact reserveMutation_tables
  | releaseMutation attempt =>
    unfold OwnershipWorld.step at h
    dsimp only at h
    split at h
    · cases h
    · next request hattempt =>
      cases h
      rw [commit_attempts]
      have hactor : (OwnershipEvent.releaseMutation attempt).instance? w =
          some request.serverSessionMutationOwnerInstanceId :=
        congrArg (Option.map _) hattempt
      rw [hactor]
      exact releaseMutation_tables hattempt
  | requestCancellation boundary turnId now =>
    cases h
    rw [commit_attempts]
    refine commit_change (prefix_refl _) fun a db' hok => ?_
    obtain ⟨change, hchange, hturn, hdb⟩ := requestServerTurnCancellation_ok hok
    rw [hdb]
    exact .updated hchange fun row _ => hturn row
  | markRunning boundary instanceId turnId now =>
    cases h
    rw [commit_attempts]
    exact updated_of_owner fun a db' hok => markServerTurnRunning_ok hok
  | finish boundary instanceId turnId terminal =>
    cases h
    rw [commit_attempts]
    exact updated_of_owner fun a db' hok => finishServerTurn_ok hok
  | openLease i o => exact (openLease_same h).tables
  | listCandidates i =>
    obtain ⟨lease, -, hnext⟩ := leaseStep_eq_some h
    exact (listCandidates_same hnext).tables
  | tryLock i =>
    obtain ⟨lease, -, hnext⟩ := leaseStep_eq_some h
    exact (tryLock_same hnext).tables
  | heartbeat i now =>
    obtain ⟨lease, hlease, hnext⟩ := leaseStep_eq_some h
    have hactor : (OwnershipEvent.heartbeat i now).instance? w = some lease.instanceId :=
      congrArg (Option.map _) hlease
    rw [hactor]
    exact heartbeat_tables hlease hnext
  | unlock i =>
    obtain ⟨lease, -, hnext⟩ := leaseStep_eq_some h
    exact (unlock_same hnext).tables
  | loseLease i =>
    obtain ⟨lease, -, hnext⟩ := leaseStep_eq_some h
    cases hnext
    exact .same
  | abandonLease i =>
    obtain ⟨lease, -, hnext⟩ := leaseStep_eq_some h
    exact (endLease_same hnext).tables
  | beginRelease i =>
    obtain ⟨lease, -, hnext⟩ := leaseStep_eq_some h
    exact (beginRelease_same hnext).tables
  | release i now =>
    obtain ⟨lease, hlease, hnext⟩ := leaseStep_eq_some h
    have hactor : (OwnershipEvent.release i now).instance? w = some lease.instanceId :=
      congrArg (Option.map _) hlease
    rw [hactor]
    exact release_tables hnext
  | endRelease i =>
    obtain ⟨lease, -, hnext⟩ := leaseStep_eq_some h
    exact (endLease_same hnext).tables
  | lockFence i o => exact (lockFence_same h).tables
  | lockFenceDatabase i =>
    obtain ⟨fence, -, hnext⟩ := fenceStep_eq_some h
    exact (lockFenceDatabase_same hnext).tables
  | validateFence i =>
    obtain ⟨fence, -, hnext⟩ := fenceStep_eq_some h
    exact (validateFence_same hnext).tables
  | loseFence i | closeFence i =>
    obtain ⟨fence, -, hnext⟩ := fenceStep_eq_some h
    cases hnext
    exact .same
  | crash o =>
    cases h
    exact .same

/-! ### Invariants of the tables -/

structure StoreInvariant (db : Database) : Prop where
  turnIds : (db.turns.map (·.turn.storedServerTurnId)).Nodup
  mutationKeys : (db.mutations.map (·.mutation.key)).Nodup
  /-- No session has both an active turn and a mutation. -/
  exclusive : ∀ row ∈ db.turns, row.active = true →
    ∀ mutation ∈ db.mutations, row.key ≠ mutation.mutation.key
  turnOwners : ∀ row ∈ db.turns, row.active = true → ValidOwner db row.owner
  mutationOwners : ∀ row ∈ db.mutations, ValidOwner db row.owner

variable {db : Database}

theorem StoreInvariant.init : StoreInvariant OwnershipWorld.init.db := by
  constructor <;> simp [OwnershipWorld.init]

theorem turnIds_map {change : TurnRow → TurnRow} (hchange : RowUpdate change)
    (rows : List TurnRow) :
    (rows.map change).map (·.turn.storedServerTurnId) =
      rows.map (·.turn.storedServerTurnId) := by
  rw [List.map_map]
  exact map_congr_left fun row _ => hchange.turnId row

/-- Updates of turns, fewer mutations and other owners, as long as what is left has valid ones. -/
theorem StoreInvariant.shrink {change : TurnRow → TurnRow} {mutations : List MutationRow}
    {owners : FinMap Uuid OwnerRow} {sessions : List SessionRow} (h : StoreInvariant db)
    (hchange : RowUpdate change) (hmutations : mutations.Sublist db.mutations)
    (hturnOwners : ∀ row ∈ db.turns, (change row).active = true →
      ValidOwner { db with owners := owners } row.owner)
    (hmutationOwners : ∀ row ∈ mutations, ValidOwner { db with owners := owners } row.owner) :
    StoreInvariant ⟨sessions, db.turns.map change, mutations, owners⟩ where
  turnIds := by
    rw [turnIds_map hchange]
    exact h.turnIds
  mutationKeys := h.mutationKeys.sublist (hmutations.map _)
  exclusive row' hrow' hactive mutation hmutation := by
    obtain ⟨row, hrow, rfl⟩ := List.mem_map.mp hrow'
    rw [hchange.key row]
    exact h.exclusive row hrow (hchange.active hactive) mutation (hmutations.subset hmutation)
  turnOwners row' hrow' hactive := by
    obtain ⟨row, hrow, rfl⟩ := List.mem_map.mp hrow'
    rw [hchange.owner row]
    exact hturnOwners row hrow hactive
  mutationOwners := hmutationOwners

theorem StoreInvariant.turnReserved {request : ReserveServerTurn} (h : StoreInvariant db)
    (howner : ValidOwner db request.reserveServerTurnOwnerInstanceId)
    (hmutation : mutationExists request.key db = false)
    (hconflict : turnConflicts (queuedRow request) db = false) :
    StoreInvariant { db with turns := db.turns ++ [queuedRow request] } where
  turnIds := by
    rw [map_append, map_singleton, nodup_append]
    refine ⟨h.turnIds, nodup_singleton _, ?_⟩
    intro id hid id' hid' heq
    obtain ⟨row, hrow, rfl⟩ := List.mem_map.mp hid
    rw [mem_singleton] at hid'
    have hnone := List.any_eq_false.mp hconflict row hrow
    exact hnone (decide_eq_true (.inl (heq.trans hid')))
  mutationKeys := h.mutationKeys
  exclusive row hrow hactive mutation hmem := by
    rcases mem_append.mp hrow with hold | hnew
    · exact h.exclusive row hold hactive mutation hmem
    · rw [mem_singleton.mp hnew]
      intro hkey
      have hnone := List.any_eq_false.mp hmutation mutation hmem
      exact hnone (decide_eq_true hkey.symm)
  turnOwners row hrow hactive := by
    rcases mem_append.mp hrow with hold | hnew
    · exact h.turnOwners row hold hactive
    · rw [mem_singleton.mp hnew]
      exact howner
  mutationOwners := h.mutationOwners

theorem StoreInvariant.mutationReserved {attempt : ℕ}
    (h : StoreInvariant db) (howner : ValidOwner db request.serverSessionMutationOwnerInstanceId)
    (hactive : ∀ row ∈ db.turns, row.active = true → row.key ≠ request.key)
    (hmutation : mutationExists request.key db = false) :
    StoreInvariant { db with mutations := db.mutations ++ [⟨request, attempt⟩] } where
  turnIds := h.turnIds
  mutationKeys := by
    rw [map_append, map_singleton, nodup_append]
    refine ⟨h.mutationKeys, nodup_singleton _, ?_⟩
    intro key hkey key' hkey' heq
    obtain ⟨row, hrow, rfl⟩ := List.mem_map.mp hkey
    rw [mem_singleton] at hkey'
    have hnone := List.any_eq_false.mp hmutation row hrow
    exact hnone (decide_eq_true (heq.trans hkey'))
  exclusive row hrow hturn mutation hmem := by
    rcases mem_append.mp hmem with hold | hnew
    · exact h.exclusive row hrow hturn mutation hold
    · rw [mem_singleton.mp hnew]
      exact hactive row hrow hturn
  turnOwners := h.turnOwners
  mutationOwners row hrow := by
    rcases mem_append.mp hrow with hold | hnew
    · exact h.mutationOwners row hold
    · rw [mem_singleton.mp hnew]
      exact howner

theorem RowUpdate.id : RowUpdate fun row => row where
  turnId _ := rfl
  key _ := rfl
  owner _ := rfl
  terminal _ _ := rfl

/-- An owner stays valid when another one is inserted and others are revoked. -/
theorem validOwner_heartbeat {instanceId o : Uuid} {owner : OwnerRow} {revoked : Uuid → Bool}
    {now : UTCTime} (h : ValidOwner db o) (hvalid : owner.revokedAt = none)
    (hkept : revoked o = false) :
    ValidOwner { db with
      owners := (db.owners.insert instanceId owner).mapWithKey fun o row =>
        if revoked o then { row with revokedAt := some now } else row } o := by
  obtain ⟨row, hlookup, hrow⟩ := h
  unfold ValidOwner
  rw [lookup_mapWithKey, lookup_insert]
  by_cases heq : o = instanceId
  · exact ⟨owner, by simp [heq ▸ hkept, heq], hvalid⟩
  · exact ⟨row, by simp [hkept, hlookup, heq], hrow⟩

/-- **Every transaction keeps the invariant of the tables.** -/
theorem TablesChange.storeInvariant (h : TablesChange w actor db' attempts)
    (hdb : StoreInvariant w.db) : StoreInvariant db' := by
  cases h with
  | kept => exact ⟨hdb.turnIds, hdb.mutationKeys, hdb.exclusive, hdb.turnOwners, hdb.mutationOwners⟩
  | updated hchange _ =>
    exact hdb.shrink hchange (List.Sublist.refl _)
      (fun row hrow hactive => hdb.turnOwners row hrow (hchange.active hactive))
      hdb.mutationOwners
  | turnReserved howner hmutation hconflict =>
    exact hdb.turnReserved howner hmutation hconflict
  | mutationReserved howner hactive hmutation =>
    exact hdb.mutationReserved howner hactive hmutation
  | @mutationReleased request attempt _ keep _ =>
    have hkept : StoreInvariant ⟨w.db.sessions, w.db.turns.map fun row => row,
        w.db.mutations.filter keep, w.db.owners⟩ :=
      hdb.shrink RowUpdate.id filter_sublist hdb.turnOwners
        fun row hrow => hdb.mutationOwners row (mem_filter.mp hrow).1
    rw [List.map_id'] at hkept
    exact hkept
  | @heartbeat instanceId owner revoked change now hvalid hchange hother hfailed hexclusive =>
    refine hdb.shrink hchange filter_sublist ?_ ?_
    · intro row hrow hactive
      cases hrevoked : revoked row.owner with
      | true =>
        rw [hfailed row hrevoked] at hactive
        cases hactive
      | false =>
        have howner := hdb.turnOwners row hrow (hchange.active hactive)
        exact validOwner_heartbeat howner hvalid hrevoked
    · intro row hrow
      rw [mem_filter, Bool.not_eq_true'] at hrow
      exact validOwner_heartbeat (hdb.mutationOwners row hrow.1) hvalid hrow.2
  | @released instanceId change hchange hother hfailed =>
    have hkept : ∀ o, ValidOwner w.db o → o ≠ instanceId →
        ValidOwner { w.db with owners := w.db.owners.delete instanceId } o := by
      intro o ho hne
      obtain ⟨row, hlookup, hrow⟩ := ho
      exact ⟨row, (FinMap.lookup_delete_of_ne hne).trans hlookup, hrow⟩
    refine hdb.shrink hchange filter_sublist ?_ ?_
    · intro row hrow hactive
      have howner := hdb.turnOwners row hrow (hchange.active hactive)
      refine hkept _ howner fun heq => ?_
      rw [hfailed row heq] at hactive
      cases hactive
    · intro row hrow
      rw [mem_filter, decide_eq_true_eq] at hrow
      exact hkept _ (hdb.mutationOwners row hrow.1) hrow.2

/-- The row of a mutation is what its attempt has asked for. -/
def RowsFromAttempts (mutations : List MutationRow) (attempts : List ServerSessionMutation) :
    Prop :=
  ∀ row ∈ mutations, attempts[row.attempt]? = some row.mutation

theorem TablesChange.rowsFromAttempts (h : TablesChange w actor db' attempts)
    (hrows : RowsFromAttempts w.db.mutations w.attempts) :
    RowsFromAttempts db'.mutations attempts := by
  cases h with
  | kept hattempts =>
    intro row hrow
    obtain ⟨later, rfl⟩ := hattempts
    have hold := hrows row hrow
    have hlt := (List.getElem?_eq_some_iff.mp hold).1
    rw [List.getElem?_append_left hlt]
    exact hold
  | updated _ _ | turnReserved _ _ _ => exact hrows
  | mutationReserved _ _ _ =>
    intro row hrow
    rcases mem_append.mp hrow with hold | hnew
    · have hlt := (List.getElem?_eq_some_iff.mp (hrows row hold)).1
      rw [List.getElem?_append_left hlt]
      exact hrows row hold
    · rw [mem_singleton.mp hnew]
      exact List.getElem?_concat_length
  | mutationReleased _ _ | heartbeat _ _ _ _ _ | released _ _ _ =>
    exact fun row hrow => hrows row (mem_filter.mp hrow).1

/-- A turn that is over stays as it is. -/
theorem TablesChange.terminal (h : TablesChange w actor db' attempts)
    {row : TurnRow} (hrow : row ∈ w.db.turns) (hterminal : row.active = false) :
    row ∈ db'.turns := by
  have hmap : ∀ {change : TurnRow → TurnRow}, RowUpdate change →
      row ∈ w.db.turns.map change := fun {change} hchange =>
    List.mem_map.mpr ⟨row, hrow, hchange.terminal row hterminal⟩
  cases h with
  | kept => exact hrow
  | updated hchange _ => exact hmap hchange
  | turnReserved _ _ _ => exact mem_append_left _ hrow
  | mutationReserved _ _ _ | mutationReleased _ _ => exact hrow
  | heartbeat _ hchange _ _ _ | released hchange _ _ => exact hmap hchange

/-- The mutations of the owner stay, and so do its turns with their status. -/
def KeepsOwned (o : Uuid) (db db' : Database) : Prop :=
  (∀ row ∈ db.mutations, row.owner = o → row ∈ db'.mutations) ∧
    ∀ row ∈ db.turns, row.owner = o → ∃ row' ∈ db'.turns,
      row'.turn.storedServerTurnId = row.turn.storedServerTurnId ∧
        row'.turn.storedServerTurnStatus = row.turn.storedServerTurnStatus

/-- While nobody has the exclusive host lock on an owner, only the owner itself touches what it
owns. -/
theorem TablesChange.keepsOwned (h : TablesChange w actor db' attempts)
    (hactor : actor ≠ some o) (hfree : w.hostExclusive o = false) : KeepsOwned o w.db db' := by
  have hmap : ∀ {change : TurnRow → TurnRow},
      (∀ row, row.owner = o → (change row).turn = row.turn) →
      ∀ row ∈ w.db.turns, row.owner = o → ∃ row' ∈ w.db.turns.map change,
        row'.turn.storedServerTurnId = row.turn.storedServerTurnId ∧
          row'.turn.storedServerTurnStatus = row.turn.storedServerTurnStatus := by
    intro change hsame row hrow howner
    refine ⟨change row, List.mem_map_of_mem hrow, ?_⟩
    rw [hsame row howner]
    exact ⟨rfl, rfl⟩
  cases h with
  | kept => exact ⟨fun _ hrow _ => hrow, fun row hrow _ => ⟨row, hrow, rfl, rfl⟩⟩
  | updated _ hother =>
    exact ⟨fun _ hrow _ => hrow, hmap fun row howner => hother row (howner ▸ hactor)⟩
  | turnReserved _ _ _ =>
    exact ⟨fun _ hrow _ => hrow,
      fun row hrow _ => ⟨row, mem_append_left _ hrow, rfl, rfl⟩⟩
  | mutationReserved _ _ _ =>
    exact ⟨fun _ hrow _ => mem_append_left _ hrow,
      fun row hrow _ => ⟨row, hrow, rfl, rfl⟩⟩
  | @mutationReleased request attempt _ keep hkeep =>
    refine ⟨fun row hrow howner => mem_filter.mpr ⟨hrow, ?_⟩,
      fun row hrow _ => ⟨row, hrow, rfl, rfl⟩⟩
    by_contra hdropped
    rw [Bool.not_eq_true] at hdropped
    have hmutation := hkeep row hdropped
    exact hactor (congrArg some (hmutation ▸ howner))
  | @heartbeat instanceId owner revoked change now _ _ hother _ hexclusive =>
    have hkept : revoked o = false := by
      by_contra hrevoked
      rw [Bool.not_eq_false] at hrevoked
      rw [hexclusive o hrevoked] at hfree
      cases hfree
    refine ⟨fun row hrow howner => mem_filter.mpr ⟨hrow, ?_⟩, hmap fun row howner => ?_⟩
    · rw [howner, hkept]
      rfl
    · rw [hother row (howner ▸ hkept)]
  | @released instanceId change _ hother _ =>
    have hne : o ≠ instanceId := fun heq => hactor (congrArg some heq.symm)
    refine ⟨fun row hrow howner => mem_filter.mpr ⟨hrow, ?_⟩, hmap fun row howner => ?_⟩
    · rw [howner]
      exact decide_eq_true hne
    · rw [hother row (howner ▸ hne)]

/-! ### Host locks -/

/-- A shared and an exclusive host lock of one owner are never held together. -/
def FenceExclusion (w : OwnershipWorld) : Prop :=
  ∀ i fence, w.fences.lookup i = some fence →
    ∀ j lease, w.leases.lookup j = some lease → fence.instanceId ∉ lease.hostLocks

theorem FenceExclusion.hostExclusive (h : FenceExclusion w) {i : ℕ}
    (hfence : w.fences.lookup i = some fence) : w.hostExclusive fence.instanceId = false := by
  refine List.any_eq_false.mpr fun lease hlease => ?_
  obtain ⟨j, hlookup⟩ := mem_elems.mp hlease
  rw [decide_eq_true_eq]
  exact h i fence hfence j lease hlookup

theorem not_hostShared (h : ¬w.hostShared o = true) {i : ℕ}
    (hfence : w.fences.lookup i = some fence) : fence.instanceId ≠ o := by
  intro heq
  refine h (List.any_eq_true.mpr ⟨fence, mem_elems.mpr ⟨i, hfence⟩, ?_⟩)
  exact decide_eq_true heq

section

variable (h : FenceExclusion w)
include h

/-- Locks only depend on the leases and the fences. -/
theorem FenceExclusion.of_eq (hleases : w'.leases = w.leases)
    (hfences : w'.fences = w.fences) : FenceExclusion w' := by
  unfold FenceExclusion
  rw [hleases, hfences]
  exact h

/-- A lease may take a host lock that no fence shares. -/
theorem FenceExclusion.setLease {i : ℕ} {lease : Lease}
    (hlocks : ∀ o ∈ lease.hostLocks, (∃ old, w.leases.lookup i = some old ∧ o ∈ old.hostLocks) ∨
      ¬w.hostShared o = true) : FenceExclusion (w.setLease i lease) := by
  intro j fence hfence k held hheld hmem
  have hlookup : (w.leases.insert i lease).lookup k = some held := hheld
  rw [lookup_insert] at hlookup
  split at hlookup
  · cases hlookup
    rcases hlocks _ hmem with ⟨old, hold, hmem'⟩ | hfree
    · exact h j fence hfence i old hold hmem'
    · exact not_hostShared hfree hfence rfl
  · exact h j fence hfence k held hlookup hmem

theorem FenceExclusion.deleteLease {i : ℕ} :
    FenceExclusion { w with leases := w.leases.delete i } := by
  intro j fence hfence k held hheld
  have hlookup : (w.leases.delete i).lookup k = some held := hheld
  rw [lookup_delete] at hlookup
  split at hlookup
  · cases hlookup
  · exact h j fence hfence k held hlookup

theorem FenceExclusion.deleteFence {i : ℕ} :
    FenceExclusion { w with fences := w.fences.delete i } := by
  intro j fence hfence
  have hlookup : (w.fences.delete i).lookup j = some fence := hfence
  rw [lookup_delete] at hlookup
  split at hlookup
  · cases hlookup
  · exact h j fence hlookup

/-- A fence may go on, or take the shared host lock when no lease has the exclusive one. -/
theorem FenceExclusion.setFence {i : ℕ} {fence : ActionFence}
    (hlock : (∃ old, w.fences.lookup i = some old ∧ old.instanceId = fence.instanceId) ∨
      ¬w.hostExclusive fence.instanceId = true) : FenceExclusion (w.setFence i fence) := by
  intro j held hheld k lease hlease hmem
  have hlookup : (w.fences.insert i fence).lookup j = some held := hheld
  rw [lookup_insert] at hlookup
  split at hlookup
  · cases hlookup
    rcases hlock with ⟨old, hold, heq⟩ | hfree
    · exact h i old hold k lease hlease (heq ▸ hmem)
    · exact hfree (hostExclusive_of_mem hlease hmem)
  · exact h j held hlookup k lease hlease hmem

end

section Locks

variable (h : FenceExclusion w) {i : ℕ}
include h

theorem FenceExclusion.openLease {o : Uuid} (hstep : w.openLease i o = some w') :
    FenceExclusion w' := by
  unfold OwnershipWorld.openLease at hstep
  split at hstep
  · cases hstep
  · split at hstep
    · cases hstep
    · cases hstep
      exact h.setLease fun o ho => absurd ho not_mem_nil

variable {lease : Lease}

theorem FenceExclusion.listCandidates (hstep : w.listCandidates i lease = some w') :
    FenceExclusion w' := by
  unfold OwnershipWorld.listCandidates at hstep
  split at hstep
  · split at hstep
    · cases hstep
      exact h.setLease fun o ho => absurd ho not_mem_nil
    · cases hstep
  · cases hstep

theorem FenceExclusion.tryLock (hlease : w.leases.lookup i = some lease)
    (hstep : w.tryLock i lease = some w') : FenceExclusion w' := by
  unfold OwnershipWorld.tryLock at hstep
  split at hstep
  · next candidate remaining acquired hphase =>
    have hold : ∀ o ∈ acquired, o ∈ lease.hostLocks := by
      unfold Lease.hostLocks
      rw [hphase]
      exact fun o ho => ho
    split at hstep
    · cases hstep
      exact h.setLease fun o ho => .inl ⟨lease, hlease, hold o ho⟩
    · next hfree =>
      cases hstep
      refine h.setLease fun o ho => ?_
      rcases mem_cons.mp ho with rfl | hmem
      · exact .inr fun hshared => hfree (.inl hshared)
      · exact .inl ⟨lease, hlease, hold o hmem⟩
  · cases hstep

theorem FenceExclusion.heartbeat {now : UTCTime} (hlease : w.leases.lookup i = some lease)
    (hstep : w.heartbeat i now lease = some w') : FenceExclusion w' := by
  unfold OwnershipWorld.heartbeat at hstep
  split at hstep
  · next acquired hphase =>
    split at hstep
    · cases hstep
      have hcommit := h.of_eq (commit_leases (t := heartbeatServerTurnOwner w.live w.actionFenced
        lease.instanceId acquired.reverse now)) commit_fences
      refine hcommit.setLease fun o ho => .inl ⟨lease, ?_, ?_⟩
      · rw [commit_leases]
        exact hlease
      · unfold Lease.hostLocks
        rw [hphase]
        exact ho
    · cases hstep
  · cases hstep

theorem FenceExclusion.unlock (hstep : w.unlock i lease = some w') : FenceExclusion w' := by
  unfold OwnershipWorld.unlock at hstep
  split at hstep
  · cases hstep
    exact h.setLease fun o ho => absurd ho not_mem_nil
  · cases hstep
    exact h.setLease fun o ho => absurd ho not_mem_nil
  · cases hstep

theorem FenceExclusion.beginRelease (hstep : w.beginRelease i lease = some w') :
    FenceExclusion w' := by
  unfold OwnershipWorld.beginRelease at hstep
  split at hstep
  · split at hstep
    · cases hstep
      exact h.deleteLease
    · next hfree =>
      cases hstep
      refine h.setLease fun o ho => .inr fun hshared => hfree (.inl ?_)
      rw [← mem_singleton.mp ho]
      exact hshared
  · cases hstep

theorem FenceExclusion.release {now : UTCTime} (hlease : w.leases.lookup i = some lease)
    (hstep : w.release i now lease = some w') : FenceExclusion w' := by
  unfold OwnershipWorld.release at hstep
  split at hstep
  · next hphase =>
    split at hstep
    · cases hstep
      have hcommit := h.of_eq (commit_leases (t := releaseServerTurnOwner w.actionFenced
        lease.instanceId now)) commit_fences
      refine hcommit.setLease fun o ho => .inl ⟨lease, ?_, ?_⟩
      · rw [commit_leases]
        exact hlease
      · unfold Lease.hostLocks
        rw [hphase]
        exact ho
    · cases hstep
  · cases hstep

theorem FenceExclusion.endLease {phases : List LeasePhase}
    (hstep : w.endLease i phases lease = some w') : FenceExclusion w' := by
  unfold OwnershipWorld.endLease at hstep
  split at hstep
  · cases hstep
    exact h.deleteLease
  · cases hstep

theorem FenceExclusion.lockFence {o : Uuid} (hstep : w.lockFence i o = some w') :
    FenceExclusion w' := by
  unfold OwnershipWorld.lockFence at hstep
  split at hstep
  · cases hstep
  · split at hstep
    · cases hstep
    · next hfree =>
      cases hstep
      exact h.setFence (.inr hfree)

theorem FenceExclusion.lockFenceDatabase {fence : ActionFence}
    (hfence : w.fences.lookup i = some fence) (hstep : w.lockFenceDatabase i fence = some w') :
    FenceExclusion w' := by
  unfold OwnershipWorld.lockFenceDatabase at hstep
  split at hstep
  · cases hstep
    exact h.setFence (.inl ⟨fence, hfence, rfl⟩)
  · cases hstep

theorem FenceExclusion.validateFence {fence : ActionFence}
    (hfence : w.fences.lookup i = some fence) (hstep : w.validateFence i fence = some w') :
    FenceExclusion w' := by
  unfold OwnershipWorld.validateFence at hstep
  split at hstep
  · split at hstep
    · split at hstep
      · cases hstep
        exact h.setFence (.inl ⟨fence, hfence, rfl⟩)
      · cases hstep
        exact h.deleteFence
    · cases hstep
  · cases hstep

/-- **Every step keeps shared and exclusive host locks apart.** -/
theorem FenceExclusion.step (hstep : w.step e = some w') : FenceExclusion w' := by
  cases e with
  | saveSession row =>
    unfold OwnershipWorld.step at hstep
    dsimp only at hstep
    split at hstep
    · cases hstep
    · cases hstep
      exact h.of_eq rfl rfl
  | deleteSession gatewayIdentity sessionKey now =>
    cases hstep
    exact h.of_eq rfl rfl
  | reserveTurn request | reserveMutation request =>
    cases hstep
    exact h.of_eq commit_leases commit_fences
  | releaseMutation attempt =>
    unfold OwnershipWorld.step at hstep
    dsimp only at hstep
    split at hstep
    · cases hstep
    · cases hstep
      exact h.of_eq commit_leases commit_fences
  | requestCancellation boundary turnId now | markRunning boundary instanceId turnId now
  | finish boundary instanceId turnId terminal =>
    cases hstep
    exact h.of_eq commit_leases commit_fences
  | openLease i o => exact h.openLease hstep
  | listCandidates i =>
    obtain ⟨lease, -, hnext⟩ := leaseStep_eq_some hstep
    exact h.listCandidates hnext
  | tryLock i =>
    obtain ⟨lease, hlease, hnext⟩ := leaseStep_eq_some hstep
    exact h.tryLock hlease hnext
  | heartbeat i now =>
    obtain ⟨lease, hlease, hnext⟩ := leaseStep_eq_some hstep
    exact h.heartbeat hlease hnext
  | unlock i =>
    obtain ⟨lease, -, hnext⟩ := leaseStep_eq_some hstep
    exact h.unlock hnext
  | loseLease i =>
    obtain ⟨lease, hlease, hnext⟩ := leaseStep_eq_some hstep
    cases hnext
    exact h.setLease fun o ho => .inl ⟨lease, hlease, ho⟩
  | abandonLease i =>
    obtain ⟨lease, -, hnext⟩ := leaseStep_eq_some hstep
    exact h.endLease hnext
  | beginRelease i =>
    obtain ⟨lease, -, hnext⟩ := leaseStep_eq_some hstep
    exact h.beginRelease hnext
  | release i now =>
    obtain ⟨lease, hlease, hnext⟩ := leaseStep_eq_some hstep
    exact h.release hlease hnext
  | endRelease i =>
    obtain ⟨lease, -, hnext⟩ := leaseStep_eq_some hstep
    exact h.endLease hnext
  | lockFence i o => exact h.lockFence hstep
  | lockFenceDatabase i =>
    obtain ⟨fence, hfence, hnext⟩ := fenceStep_eq_some hstep
    exact h.lockFenceDatabase hfence hnext
  | validateFence i =>
    obtain ⟨fence, hfence, hnext⟩ := fenceStep_eq_some hstep
    exact h.validateFence hfence hnext
  | loseFence i =>
    obtain ⟨fence, hfence, hnext⟩ := fenceStep_eq_some hstep
    cases hnext
    exact h.setFence (.inl ⟨fence, hfence, rfl⟩)
  | closeFence i =>
    obtain ⟨fence, -, hnext⟩ := fenceStep_eq_some hstep
    cases hnext
    exact h.deleteFence
  | crash o =>
    cases hstep
    intro j fence hfence k lease hlease
    exact h j fence (lookup_filter_eq_some.mp hfence).1 k lease
      (lookup_filter_eq_some.mp hlease).1

end Locks

/-! ### Durable ownership -/

structure OwnershipInvariant (w : OwnershipWorld) : Prop where
  store : StoreInvariant w.db
  rows : RowsFromAttempts w.db.mutations w.attempts
  locks : FenceExclusion w

theorem OwnershipInvariant.init : OwnershipInvariant .init where
  store := .init
  rows := fun row hrow => absurd hrow not_mem_nil
  locks := fun i fence hfence => by cases hfence

theorem OwnershipInvariant.step (h : OwnershipInvariant w) (hstep : w.step e = some w') :
    OwnershipInvariant w' where
  store := (step_tables hstep).storeInvariant h.store
  rows := (step_tables hstep).rowsFromAttempts h.rows
  locks := h.locks.step hstep

theorem ownershipInvariant_of_reachable
    (h : Reachable OwnershipWorld.step .init w) : OwnershipInvariant w :=
  h.invariant .init fun _ _ _ hi _ hstep => hi.step hstep

/-- A turn that is over stays as it is in every run. -/
theorem terminal_in_run (h : Reachable OwnershipWorld.step w w') {row : TurnRow}
    (hrow : row ∈ w.db.turns) (hterminal : row.active = false) : row ∈ w'.db.turns :=
  h.invariant (I := fun v => row ∈ v.db.turns) hrow
    fun _ _ _ hmem _ hstep => (step_tables hstep).terminal hmem hterminal

/-- A release only deletes what was reserved with the request that it releases. -/
theorem release_keeps {attempt : ℕ} (hrows : RowsFromAttempts w.db.mutations w.attempts)
    (hstep : w.step (.releaseMutation attempt) = some w') {row : MutationRow}
    (hrow : row ∈ w.db.mutations) (hne : w.attempts[row.attempt]? ≠ w.attempts[attempt]?) :
    row ∈ w'.db.mutations := by
  unfold OwnershipWorld.step at hstep
  dsimp only at hstep
  split at hstep
  · cases hstep
  · next request hattempt =>
    cases hstep
    refine mem_filter.mpr ⟨hrow, decide_eq_true fun hdropped => hne ?_⟩
    obtain ⟨hkey, howner, hcreated⟩ := hdropped
    obtain ⟨hboundary, hsession⟩ := SessionKey.mk.inj hkey
    have hmutation : row.mutation = request := by
      cases hm : row.mutation
      cases hr : request
      rw [hm, hr] at hboundary hsession howner hcreated
      exact ServerSessionMutation.mk.injEq .. ▸ ⟨hboundary, hsession, howner, hcreated⟩
    rw [hrows row hrow, hattempt, hmutation]

/-- **Sessions are held by one turn or mutation of a valid owner, and what an owner's fence protects
no other owner takes.** -/
theorem durable_turn_ownership (h : Reachable OwnershipWorld.step .init w) :
    -- a session has an active turn or a mutation, not both, and one mutation at most
    ((∀ row ∈ w.db.turns, row.active = true →
        ∀ mutation ∈ w.db.mutations, row.key ≠ mutation.mutation.key) ∧
      (w.db.mutations.map (·.mutation.key)).Nodup) ∧
    -- a turn that is over stays the one row of its number
    (∀ row ∈ w.db.turns, row.active = false →
      ∀ w', Reachable OwnershipWorld.step w w' → row ∈ w'.db.turns ∧
        ∀ row' ∈ w'.db.turns,
          row'.turn.storedServerTurnId = row.turn.storedServerTurnId → row' = row) ∧
    -- a release keeps the row of every later attempt with another request
    (∀ attempt w', w.step (.releaseMutation attempt) = some w' →
      ∀ row ∈ w.db.mutations, attempt < row.attempt →
        w.attempts[row.attempt]? ≠ w.attempts[attempt]? → row ∈ w'.db.mutations) ∧
    -- a revoked owner owns no active turn and no mutation
    (∀ o owner, w.db.owners.lookup o = some owner → owner.revokedAt ≠ none →
      (∀ row ∈ w.db.turns, row.active = true → row.owner ≠ o) ∧
        ∀ row ∈ w.db.mutations, row.owner ≠ o) ∧
    -- what belongs to an owner with an action fence is left alone by the others
    (∀ i fence, w.fences.lookup i = some fence → ∀ e w', w.step e = some w' →
      e.instance? w ≠ some fence.instanceId → KeepsOwned fence.instanceId w.db w'.db) := by
  have hw := ownershipInvariant_of_reachable h
  have hvalid : ∀ o owner, w.db.owners.lookup o = some owner → owner.revokedAt ≠ none →
      ¬ValidOwner w.db o := by
    intro o owner hlookup hrevoked hvalid
    obtain ⟨owner', hlookup', hnone⟩ := hvalid
    rw [hlookup] at hlookup'
    cases hlookup'
    exact hrevoked hnone
  refine ⟨⟨hw.store.exclusive, hw.store.mutationKeys⟩, ?_, ?_, ?_, ?_⟩
  · intro row hrow hterminal w' hrun
    have hkept := terminal_in_run hrun hrow hterminal
    refine ⟨hkept, fun row' hrow' hid => ?_⟩
    have hids := (ownershipInvariant_of_reachable (h.trans hrun)).store.turnIds
    exact inj_on_of_nodup_map hids hrow' hkept hid
  · intro attempt w' hstep row hrow _ hne
    exact release_keeps hw.rows hstep hrow hne
  · intro o owner hlookup hrevoked
    refine ⟨fun row hrow hactive heq => ?_, fun row hrow heq => ?_⟩
    · exact hvalid o owner hlookup hrevoked (heq ▸ hw.store.turnOwners row hrow hactive)
    · exact hvalid o owner hlookup hrevoked (heq ▸ hw.store.mutationOwners row hrow)
  · intro i fence hfence e w' hstep hactor
    exact (step_tables hstep).keepsOwned hactor (hw.locks.hostExclusive hfence)

def exampleBoundary : ServerTurnBoundary := ⟨['t'], none⟩

def exampleTurn (turnId owner : Uuid) (session : Text) : ReserveServerTurn where
  reserveServerTurnId := turnId
  reserveServerTurnBoundary := exampleBoundary
  reserveServerTurnSessionId := session
  reserveServerTurnClientRequestId := turnId
  reserveServerTurnInputDigest := List.replicate 64 '0'
  reserveServerTurnInput := ['h', 'i']
  reserveServerTurnOwnerInstanceId := owner
  reserveServerTurnCreatedAt := 1

def exampleMutation (owner : Uuid) (session : Text) : ServerSessionMutation :=
  ⟨exampleBoundary, session, owner, 1⟩

/-- The first owner's connection is lost while it acts under a fence, so a first heartbeat of the
second owner cannot recover it.  It dies, and a second heartbeat does. -/
def recoveryRun : List OwnershipEvent :=
  [.saveSession ⟨none, ['a'], none⟩, .saveSession ⟨none, ['b'], none⟩,
    .openLease 0 1, .listCandidates 0, .heartbeat 0 1, .unlock 0,
    .openLease 1 2, .listCandidates 1, .tryLock 1, .heartbeat 1 2, .unlock 1,
    .lockFence 0 1, .lockFenceDatabase 0, .validateFence 0,
    .reserveTurn (exampleTurn 10 1 ['a']), .markRunning exampleBoundary 1 10 2,
    .reserveMutation (exampleMutation 1 ['a']), .reserveMutation (exampleMutation 1 ['b']),
    .reserveTurn (exampleTurn 11 1 ['b']),
    .loseLease 0, .loseFence 0, .listCandidates 1, .tryLock 1, .heartbeat 1 3, .unlock 1,
    .crash 1, .listCandidates 1, .tryLock 1, .heartbeat 1 4, .unlock 1,
    .reserveMutation (exampleMutation 2 ['a'])]

theorem durable_turn_ownership_in_recoveryRun :
    ∃ w, Reachable OwnershipWorld.step .init w ∧
      (∃ owner, w.db.owners.lookup 1 = some owner ∧ owner.revokedAt ≠ none) ∧
      (∀ row ∈ w.db.turns, row.active = true → row.owner ≠ 1) ∧
      ∀ row ∈ w.db.mutations, row.owner ≠ 1 := by
  have hrun : (Machine.run OwnershipWorld.step .init
      recoveryRun).any (fun w => (w.db.owners.lookup 1).any (·.revokedAt == some 4) &&
        w.db.turns.map (·.turn.storedServerTurnFinishedAt) == [some 4] &&
        w.db.mutations.map (·.attempt) == [2]) = true := by
    decide +kernel
  obtain ⟨w, hw, htest⟩ := exists_reachable_of_run hrun
  rw [Bool.and_eq_true, Bool.and_eq_true] at htest
  obtain ⟨owner, hlookup, hrevoked⟩ := (Option.any_eq_true _ _).mp htest.1.1
  have hne : owner.revokedAt ≠ none := by
    rw [beq_iff_eq.mp hrevoked]
    exact some_ne_none 4
  have hclaim := (durable_turn_ownership hw).2.2.2.1 1 owner hlookup hne
  exact ⟨w, hw, ⟨owner, hlookup, hne⟩, hclaim⟩

/-- An owner reserves a mutation, releases it, and reserves it again at the same time. -/
def lateReleaseRun : List OwnershipEvent :=
  [.saveSession ⟨none, ['a'], none⟩, .openLease 0 1, .listCandidates 0, .heartbeat 0 1,
    .reserveMutation (exampleMutation 1 ['a']), .releaseMutation 0,
    .reserveMutation (exampleMutation 1 ['a'])]

/-- **A late release deletes the newer reservation**, if nothing tells the two apart. -/
theorem late_release_deletes_newer :
    ∃ w, Reachable OwnershipWorld.step .init w ∧
      ∃ w', w.step (.releaseMutation 0) = some w' ∧
        ∃ row ∈ w.db.mutations, 0 < row.attempt ∧ row ∉ w'.db.mutations := by
  have hrun : (Machine.run OwnershipWorld.step .init
      lateReleaseRun).any (fun w => w.db.mutations == [⟨exampleMutation 1 ['a'], 1⟩] &&
        (w.step (.releaseMutation 0)).any (·.db.mutations == [])) = true := by
    decide +kernel
  obtain ⟨w, hw, htest⟩ := exists_reachable_of_run hrun
  rw [Bool.and_eq_true] at htest
  obtain ⟨w', hstep, hempty⟩ := (Option.any_eq_true _ _).mp htest.2
  have hrows := beq_iff_eq.mp htest.1
  refine ⟨w, hw, w', hstep, _, hrows ▸ mem_singleton_self _, by decide, ?_⟩
  rw [beq_iff_eq.mp hempty]
  exact not_mem_nil

end Store

end HaskellAgent
