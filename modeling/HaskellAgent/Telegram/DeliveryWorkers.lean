import HaskellAgent.Lib.FinMap
import HaskellAgent.Lib.PartTransfer
import HaskellAgent.Telegram.DeliveryStore

/-!
# Workers that deliver Telegram messages

Any number of workers take the next delivery, ask for its authorization, transmit one part within
the scope of that authorization, and settle what came of it.  A worker can crash between any two of
these steps, and then leaves its claim behind.

The authorization is the application's.  It is refused once the binding has been revoked, and its
scope holds the lock under which bindings are revoked.
-/

open List Option Function FinMap Machine

namespace HaskellAgent

namespace Telegram

/-- Where a worker is: before the authorization, in its scope, and behind it. -/
inductive Stage (τ : Type)
  | claimed
  | authorized (attempt : τ)
  | sent (outcome : DeliveryOutcome)
  | settling (outcome : DeliveryOutcome)

structure Worker (τ : Type) where
  storeNamespace : Text
  delivery : DeliveryRecord
  stage : Stage τ

variable {τ : Type}

def Worker.key (worker : Worker τ) : DeliveryKey :=
  (worker.storeNamespace, worker.delivery.deliveryIdentifier)

/-- The binding whose lock the worker holds. -/
def Worker.locks (worker : Worker τ) : Option (Text × Text) :=
  match worker.stage with
  | .authorized _ => some (worker.storeNamespace, worker.delivery.bindingIdentifier)
  | .sent _ => some (worker.storeNamespace, worker.delivery.bindingIdentifier)
  | .claimed => none
  | .settling _ => none

/-- What is seen of the deliveries. -/
inductive Observation
  | transmitted (key : DeliveryKey) (binding : Text) (part : ℕ) (payload : Json)
      (outcome : DeliveryOutcome)
  | accepted (key : DeliveryKey) (part : ℕ) (message : ℤ)
  | postponed (key : DeliveryKey) (part : ℕ)
  | closed (key : DeliveryKey)
  | abandoned (key : DeliveryKey)
  | revoked (storeNamespace binding : Text)

structure DeliveryWorld (τ : Type) where
  database : DeliveryDatabase
  revoked : List (Text × Text)
  workers : FinMap ℕ (Worker τ)
  trace : List Observation

def DeliveryWorld.init : DeliveryWorld τ :=
  ⟨⟨fun _ => none, fun _ _ => none⟩, [], FinMap.empty, []⟩

inductive DeliveryEvent
  | enqueue (storeNamespace identifier binding : Text) (chat : ℤ) (parts : List Json)
      (now : Timestamp)
  | claim (worker : ℕ) (storeNamespace identifier : Text) (now : Timestamp)
  /-- The claimed part cannot be decoded. -/
  | refuseDecoding (worker : ℕ)
  | authorize (worker : ℕ)
  | refuse (worker : ℕ)
  /-- An exception in the authorization scope, or before it. -/
  | throwInScope (worker : ℕ)
  | transmit (worker : ℕ) (result : Except TelegramRequestError (Option ℤ))
  | leaveScope (worker : ℕ)
  | settle (worker : ℕ) (now : Timestamp)
  | crash (worker : ℕ)
  | revoke (storeNamespace binding : Text)

/-- What is seen of a statement that settles an outcome. -/
def settlement (key : DeliveryKey) (part : ℕ) : DeliveryOutcome → Observation
  | .acknowledged identifier =>
    if 0 < identifier ∧ identifier ≤ 2 ^ 63 - 1 then .accepted key part identifier else .closed key
  | .rejected => .closed key
  | .retryAfter _ => .postponed key part
  | .uncertain => .closed key

/-- The worker goes to another stage. -/
def DeliveryWorld.advance (world : DeliveryWorld τ) (n : ℕ) (worker : Worker τ) (stage : Stage τ)
    (seen : List Observation) : DeliveryWorld τ :=
  { world with
    workers := world.workers.insert n { worker with stage }
    trace := world.trace ++ seen }

/-- The worker is done with its delivery. -/
def DeliveryWorld.leave (world : DeliveryWorld τ) (n : ℕ) (database : DeliveryDatabase)
    (seen : Observation) : DeliveryWorld τ :=
  { world with
    database
    workers := world.workers.delete n
    trace := world.trace ++ [seen] }

section Step

variable (decode : DeliveryRecord → Option τ)

def step (world : DeliveryWorld τ) : DeliveryEvent → Option (DeliveryWorld τ)
  | .enqueue storeNamespace identifier binding chat parts now =>
    match enqueueDelivery world.database storeNamespace identifier binding chat parts now with
    | .error _ => some world
    | .ok database => some { world with database }
  | .claim n storeNamespace identifier now =>
    match world.workers.lookup n, claimDelivery world.database storeNamespace identifier now with
    | none, some (database, delivery) =>
      some { world with
        database
        workers := world.workers.insert n ⟨storeNamespace, delivery, .claimed⟩ }
    | _, _ => none
  | .refuseDecoding n => do
    let worker ← world.workers.lookup n
    match worker.stage, decode worker.delivery with
    | .claimed, none => some (world.advance n worker (.settling .rejected) [.closed worker.key])
    | _, _ => none
  | .authorize n => do
    let worker ← world.workers.lookup n
    match worker.stage, decode worker.delivery with
    | .claimed, some attempt =>
      if (worker.storeNamespace, worker.delivery.bindingIdentifier) ∈ world.revoked then none
      else some (world.advance n worker (.authorized attempt) [])
    | _, _ => none
  | .refuse n => do
    let worker ← world.workers.lookup n
    match worker.stage, decode worker.delivery with
    | .claimed, some _ => some (world.advance n worker (.settling .rejected) [.closed worker.key])
    | _, _ => none
  | .throwInScope n => do
    let worker ← world.workers.lookup n
    match worker.stage, decode worker.delivery with
    | .settling _, _ => none
    | _, none => none
    | _, some _ => some (world.advance n worker (.settling .uncertain) [.closed worker.key])
  | .transmit n result => do
    let worker ← world.workers.lookup n
    match worker.stage with
    | .authorized _ =>
      some (world.advance n worker (.sent (deliverConnectorMessage result))
        [.transmitted worker.key worker.delivery.bindingIdentifier worker.delivery.partIndex
          worker.delivery.partPayload (deliverConnectorMessage result)])
    | _ => none
  | .leaveScope n => do
    let worker ← world.workers.lookup n
    match worker.stage with
    | .sent outcome => some (world.advance n worker (.settling outcome) [])
    | _ => none
  | .settle n now => do
    let worker ← world.workers.lookup n
    match worker.stage with
    | .settling outcome =>
      match settleDelivery world.database worker.storeNamespace worker.delivery outcome now with
      | some database =>
        some (world.leave n database (settlement worker.key worker.delivery.partIndex outcome))
      | none => some (world.leave n world.database (.abandoned worker.key))
    | _ => none
  | .crash n => do
    let worker ← world.workers.lookup n
    some (world.leave n world.database (.abandoned worker.key))
  | .revoke storeNamespace binding =>
    if world.workers.elems.all fun worker => worker.locks ≠ some (storeNamespace, binding) then
      some { world with
        database := revokeBinding world.database storeNamespace binding
        revoked := (storeNamespace, binding) :: world.revoked
        trace := world.trace ++ [.revoked storeNamespace binding] }
    else none

end Step

/-! ### Deliveries as transfers -/

/-- The message of a valid acknowledgement. -/
def receiptOf : DeliveryOutcome → Option ℤ
  | .acknowledged identifier =>
    if 0 < identifier ∧ identifier ≤ 2 ^ 63 - 1 then some identifier else none
  | _ => none

def mayRetry : DeliveryOutcome → Bool
  | .retryAfter _ => true
  | _ => false

/-- What an observation says about one delivery. -/
def eventOf (key : DeliveryKey) : Observation → Option (Transfer.Event DeliveryOutcome ℤ)
  | .transmitted k _ part _ outcome => if k = key then some (.transmitted part outcome) else none
  | .accepted k part message => if k = key then some (.accepted part message) else none
  | .postponed k part => if k = key then some (.postponed part) else none
  | .closed k => if k = key then some .closed else none
  | .abandoned k => if k = key then some .closed else none
  | .revoked _ _ => none

/-- The delivery that an observation is about. -/
def Observation.about : Observation → Option DeliveryKey
  | .transmitted key _ _ _ _ => some key
  | .accepted key _ _ => some key
  | .postponed key _ => some key
  | .closed key => some key
  | .abandoned key => some key
  | .revoked _ _ => none

/-- A run of the transfer of one delivery. -/
def Transfers (key : DeliveryKey) (trace : List Observation)
    (s : Transfer.State DeliveryOutcome) : Prop :=
  Machine.run (Transfer.step receiptOf mayRetry) (.ready 0) (trace.filterMap (eventOf key)) = some s

variable {trace : List Observation} {key : DeliveryKey}

theorem eventOf_ne {o : Observation} (h : o.about ≠ some key) :
    eventOf key o = none := by
  cases o with
  | revoked storeNamespace binding => rfl
  | _ =>
    rw [eventOf]
    exact if_neg fun heq => h (congrArg some heq)

theorem Transfers.others
    {s : Transfer.State DeliveryOutcome} (h : Transfers key trace s) {seen : List Observation}
    (hseen : ∀ o ∈ seen, o.about ≠ some key) : Transfers key (trace ++ seen) s := by
  have hnone : seen.filterMap (eventOf key) = [] :=
    filterMap_eq_nil_iff.mpr fun o ho => eventOf_ne (hseen o ho)
  rw [Transfers, filterMap_append, hnone, List.append_nil]
  exact h

theorem Transfers.concat
    {s s' : Transfer.State DeliveryOutcome} (h : Transfers key trace s) {o : Observation}
    {e : Transfer.Event DeliveryOutcome ℤ} (ho : eventOf key o = some e)
    (hstep : Transfer.step receiptOf mayRetry s e = some s') : Transfers key (trace ++ [o]) s' := by
  rw [Transfers, filterMap_append, filterMap_cons_some ho, filterMap_nil]
  exact Transfer.run_concat h hstep

/-- Every transfer can be closed. -/
theorem Transfers.close
    {s : Transfer.State DeliveryOutcome} (h : Transfers key trace s) {o : Observation}
    (ho : eventOf key o = some .closed) : Transfers key (trace ++ [o]) (.closed s.part) := by
  refine h.concat ho ?_
  cases s <;> rfl

/-! ### Steps -/

/-- A stage follows another one; what is seen of it. -/
inductive StageMove (worker : Worker τ) (revoked : List (Text × Text)) :
    Stage τ → List Observation → Prop
  | authorized (attempt : τ) (hstage : worker.stage = .claimed)
      (hallowed : (worker.storeNamespace, worker.delivery.bindingIdentifier) ∉ revoked) :
      StageMove worker revoked (.authorized attempt) []
  | closed (outcome : DeliveryOutcome) (houtcome : outcome = .rejected ∨ outcome = .uncertain) :
      StageMove worker revoked (.settling outcome) [.closed worker.key]
  | transmitted (attempt : τ) (outcome : DeliveryOutcome)
      (hstage : worker.stage = .authorized attempt) :
      StageMove worker revoked (.sent outcome)
        [.transmitted worker.key worker.delivery.bindingIdentifier worker.delivery.partIndex
          worker.delivery.partPayload outcome]
  | left (outcome : DeliveryOutcome) (hstage : worker.stage = .sent outcome) :
      StageMove worker revoked (.settling outcome) []

/-- What a step can do. -/
inductive Move (world : DeliveryWorld τ) : DeliveryWorld τ → Prop
  | same : Move world world
  | enqueued (key : DeliveryKey) (row : DeliveryRow)
      (hnew : world.database.deliveries key = none) (hnext : row.nextPart = 0)
      (hstatus : row.status = .pending) :
      Move world { world with database := world.database.setRow key row }
  | claimed (n : ℕ) (worker : Worker τ) (row : DeliveryRow)
      (hfree : world.workers.lookup n = none) (hstage : worker.stage = .claimed)
      (hrow : world.database.deliveries worker.key = some row) (hstatus : row.status = .pending)
      (hpart : row.nextPart = worker.delivery.partIndex)
      (hbinding : row.bindingRevision = worker.delivery.bindingIdentifier)
      (hpayload : row.parts[worker.delivery.partIndex]? = some worker.delivery.partPayload) :
      Move world { world with
        database := world.database.setRow worker.key { row with status := .sending }
        workers := world.workers.insert n worker }
  | advanced (n : ℕ) (worker : Worker τ) (stage : Stage τ) (seen : List Observation)
      (hworker : world.workers.lookup n = some worker)
      (hmove : StageMove worker world.revoked stage seen) :
      Move world (world.advance n worker stage seen)
  | settled (n : ℕ) (worker : Worker τ) (outcome : DeliveryOutcome) (now : Timestamp)
      (database : DeliveryDatabase) (hworker : world.workers.lookup n = some worker)
      (hstage : worker.stage = .settling outcome)
      (hsettle : settleDelivery world.database worker.storeNamespace worker.delivery outcome now =
        some database) :
      Move world
        (world.leave n database (settlement worker.key worker.delivery.partIndex outcome))
  | abandoned (n : ℕ) (worker : Worker τ) (hworker : world.workers.lookup n = some worker) :
      Move world (world.leave n world.database (.abandoned worker.key))
  | revoked (storeNamespace binding : Text)
      (hunlocked : ∀ n worker, world.workers.lookup n = some worker →
        worker.locks ≠ some (storeNamespace, binding)) :
      Move world { world with
        database := revokeBinding world.database storeNamespace binding
        revoked := (storeNamespace, binding) :: world.revoked
        trace := world.trace ++ [.revoked storeNamespace binding] }

theorem claimDelivery_eq_some {db db' : DeliveryDatabase} {storeNamespace identifier : Text}
    {now : Timestamp} {delivery : DeliveryRecord}
    (h : claimDelivery db storeNamespace identifier now = some (db', delivery)) :
    ∃ row payload, db.deliveries (storeNamespace, identifier) = some row ∧
      row.parts[row.nextPart]? = some payload ∧ row.status = .pending ∧
      db' = db.setRow (storeNamespace, identifier) { row with status := .sending } ∧
      delivery = ⟨identifier, row.bindingRevision, row.chatId, row.nextPart, payload⟩ := by
  obtain ⟨row, hrow, h⟩ := bind_eq_some_iff.mp h
  obtain ⟨payload, hpayload, h⟩ := bind_eq_some_iff.mp h
  split at h
  · next hready =>
    cases h
    exact ⟨row, payload, hrow, hpayload, hready.1, rfl, rfl⟩
  · cases h

theorem move_of_step {decode : DeliveryRecord → Option τ} {world world' : DeliveryWorld τ}
    {e : DeliveryEvent} (h : step decode world e = some world') : Move world world' := by
  cases e with
  | enqueue storeNamespace identifier binding chat parts now =>
    simp only [step, enqueueDelivery] at h
    by_cases hparts : parts = []
    · rw [if_pos hparts] at h
      cases h
      exact .same
    · rw [if_neg hparts] at h
      cases hrow : world.database.deliveries (storeNamespace, identifier) with
      | some row =>
        rw [hrow] at h
        cases h
        exact .same
      | none =>
        rw [hrow] at h
        cases h
        exact .enqueued _ _ hrow rfl rfl
  | claim n storeNamespace identifier now =>
    simp only [step] at h
    split at h
    · next db delivery hfree hclaim =>
      cases h
      obtain ⟨row, payload, hrow, hpayload, hstatus, rfl, rfl⟩ := claimDelivery_eq_some hclaim
      let worker : Worker τ := ⟨storeNamespace,
        ⟨identifier, row.bindingRevision, row.chatId, row.nextPart, payload⟩, .claimed⟩
      exact .claimed n worker row hfree rfl hrow hstatus rfl rfl hpayload
    · cases h
  | refuseDecoding n =>
    obtain ⟨worker, hworker, h⟩ := bind_eq_some_iff.mp h
    split at h
    · cases h
      exact .advanced n worker _ _ hworker (.closed _ (.inl rfl))
    · cases h
  | authorize n =>
    obtain ⟨worker, hworker, h⟩ := bind_eq_some_iff.mp h
    split at h
    · next attempt hstage hdecode =>
      split at h
      · cases h
      · next hallowed =>
        cases h
        exact .advanced n worker _ _ hworker (.authorized attempt hstage hallowed)
    · cases h
  | refuse n =>
    obtain ⟨worker, hworker, h⟩ := bind_eq_some_iff.mp h
    split at h
    · cases h
      exact .advanced n worker _ _ hworker (.closed _ (.inl rfl))
    · cases h
  | throwInScope n =>
    obtain ⟨worker, hworker, h⟩ := bind_eq_some_iff.mp h
    split at h
    · cases h
    · cases h
    · cases h
      exact .advanced n worker _ _ hworker (.closed _ (.inr rfl))
  | transmit n result =>
    obtain ⟨worker, hworker, h⟩ := bind_eq_some_iff.mp h
    split at h
    · next attempt hstage =>
      cases h
      exact .advanced n worker _ _ hworker (.transmitted attempt _ hstage)
    · cases h
  | leaveScope n =>
    obtain ⟨worker, hworker, h⟩ := bind_eq_some_iff.mp h
    split at h
    · next outcome hstage =>
      cases h
      exact .advanced n worker _ _ hworker (.left outcome hstage)
    · cases h
  | settle n now =>
    obtain ⟨worker, hworker, h⟩ := bind_eq_some_iff.mp h
    split at h
    · next outcome hstage =>
      split at h
      · next database hsettle =>
        cases h
        exact .settled n worker outcome now database hworker hstage hsettle
      · cases h
        exact .abandoned n worker hworker
    · cases h
  | crash n =>
    obtain ⟨worker, hworker, h⟩ := bind_eq_some_iff.mp h
    cases h
    exact .abandoned n worker hworker
  | revoke storeNamespace binding =>
    simp only [step] at h
    split at h
    · next hall =>
      cases h
      refine .revoked storeNamespace binding fun n worker hworker => ?_
      simpa using List.all_eq_true.mp hall worker (mem_elems.mpr ⟨n, hworker⟩)
    · cases h

/-! ### The invariant -/

/-- The transfer of a delivery that a worker holds. -/
def Stage.Fits (part : ℕ) (s : Transfer.State DeliveryOutcome) : Stage τ → Prop
  | .claimed => s = .ready part
  | .authorized _ => s = .ready part
  | .sent outcome => s = .awaiting part outcome
  | .settling outcome =>
    s = .awaiting part outcome ∨
      (outcome = .rejected ∨ outcome = .uncertain) ∧ s = .closed part

/-- The outcome of a transmission that has not been settled. -/
def Stage.Awaits (outcome : DeliveryOutcome) (stage : Stage τ) : Prop :=
  stage = .sent outcome ∨ stage = .settling outcome

/-- The row of a delivery that a worker holds. -/
structure Holds (database : DeliveryDatabase) (worker : Worker τ) (row : DeliveryRow) : Prop where
  found : database.deliveries worker.key = some row
  status : row.status = .sending
  part : row.nextPart = worker.delivery.partIndex
  binding : row.bindingRevision = worker.delivery.bindingIdentifier
  payload : row.parts[worker.delivery.partIndex]? = some worker.delivery.partPayload

/-- The transfer of a delivery. -/
structure Tracks (world : DeliveryWorld τ) (key : DeliveryKey)
    (s : Transfer.State DeliveryOutcome) : Prop where
  transfers : Transfers key world.trace s
  unknown : world.database.deliveries key = none → s = .ready 0
  part : ∀ row, world.database.deliveries key = some row → s.part = row.nextPart
  ready : ∀ row, world.database.deliveries key = some row → row.status = .pending →
    s = .ready row.nextPart
  held : ∀ n worker, world.workers.lookup n = some worker → worker.key = key →
    worker.stage.Fits worker.delivery.partIndex s
  awaited : ∀ part outcome, s = .awaiting part outcome → ∃ n worker,
    world.workers.lookup n = some worker ∧ worker.key = key ∧ worker.stage.Awaits outcome

structure DeliveryInvariant (world : DeliveryWorld τ) : Prop where
  holds : ∀ n worker, world.workers.lookup n = some worker → ∃ row, Holds world.database worker row
  unique : ∀ n m worker other, world.workers.lookup n = some worker →
    world.workers.lookup m = some other → worker.key = other.key → n = m
  tracks : ∀ key, ∃ s, Tracks world key s
  receipts : ∀ key part message, world.database.receipts key part = some message ↔
    .accepted key part message ∈ world.trace
  transmissions : ∀ key binding part payload outcome,
    .transmitted key binding part payload outcome ∈ world.trace →
    ∃ row, world.database.deliveries key = some row ∧ row.bindingRevision = binding ∧
      row.parts[part]? = some payload
  revoked : ∀ storeNamespace binding, .revoked storeNamespace binding ∈ world.trace →
    (storeNamespace, binding) ∈ world.revoked
  locked : ∀ n worker lock, world.workers.lookup n = some worker → worker.locks = some lock →
    lock ∉ world.revoked
  fenced : world.trace.Pairwise fun earlier later =>
    ∀ storeNamespace binding identifier part payload outcome,
      earlier = .revoked storeNamespace binding →
      later ≠ .transmitted (storeNamespace, identifier) binding part payload outcome

theorem deliveryInvariant_init : DeliveryInvariant (DeliveryWorld.init : DeliveryWorld τ) where
  holds _ _ h := by cases h
  unique _ _ _ _ h := by cases h
  tracks key := by
    refine ⟨.ready 0, rfl, fun _ => rfl, ?_, ?_, ?_, ?_⟩
    · intro row h
      cases h
    · intro row h
      cases h
    · intro n worker h
      cases h
    · intro part outcome h
      cases h
  receipts _ _ _ := by simp [DeliveryWorld.init]
  transmissions _ _ _ _ _ h := by cases h
  revoked _ _ h := by cases h
  locked _ _ _ h := by cases h
  fenced := .nil

/-! ### The invariant is kept -/

section Kept

variable {world : DeliveryWorld τ} {n : ℕ} {worker : Worker τ}

theorem DeliveryDatabase.setRow_self (db : DeliveryDatabase) (key : DeliveryKey)
    (row : DeliveryRow) : (db.setRow key row).deliveries key = some row :=
  update_self ..

theorem DeliveryDatabase.setRow_of_ne (db : DeliveryDatabase) {key k : DeliveryKey}
    (row : DeliveryRow) (h : k ≠ key) : (db.setRow key row).deliveries k = db.deliveries k :=
  update_of_ne h ..

variable {seen : List Observation} {row : DeliveryRow} {stage : Stage τ}

theorem StageMove.about {revoked : List (Text × Text)}
    (h : StageMove worker revoked stage seen) : ∀ o ∈ seen, o.about = some worker.key := by
  intro o ho
  cases h with
  | authorized attempt hstage hallowed => cases ho
  | closed outcome houtcome | transmitted attempt outcome hstage =>
    rw [mem_singleton] at ho
    subst ho
    rfl
  | left outcome hstage => cases ho

/-- A stage and the transfer move together. -/
theorem StageMove.transfers {revoked : List (Text × Text)}
    {trace : List Observation} {s : Transfer.State DeliveryOutcome}
    (h : StageMove worker revoked stage seen) (hs : Transfers worker.key trace s)
    (hpart : s.part = worker.delivery.partIndex)
    (hfits : worker.stage.Fits worker.delivery.partIndex s) :
    ∃ s', Transfers worker.key (trace ++ seen) s' ∧ s'.part = s.part ∧
      stage.Fits worker.delivery.partIndex s' ∧
      ∀ part outcome, s' = .awaiting part outcome → stage.Awaits outcome := by
  cases h with
  | authorized attempt hstage hallowed =>
    rw [hstage] at hfits
    refine ⟨s, by rwa [List.append_nil], rfl, hfits, fun part outcome heq => ?_⟩
    cases hfits.symm.trans heq
  | closed outcome houtcome =>
    refine ⟨.closed s.part, hs.close ?_, rfl, .inr ⟨houtcome, by rw [hpart]⟩, by simp⟩
    simp [eventOf]
  | transmitted attempt outcome hstage =>
    rw [hstage] at hfits
    obtain rfl : s = .ready worker.delivery.partIndex := hfits
    refine ⟨.awaiting worker.delivery.partIndex outcome, ?_, rfl, rfl, fun part o heq => ?_⟩
    · refine hs.concat (e := .transmitted worker.delivery.partIndex outcome) ?_ ?_
      · simp [eventOf]
      · simp [Transfer.step]
    · exact .inl (by rw [(Transfer.State.awaiting.inj heq).2])
  | left outcome hstage =>
    rw [hstage] at hfits
    refine ⟨s, by rwa [List.append_nil], rfl, .inl hfits, fun part o heq => .inr ?_⟩
    rw [(Transfer.State.awaiting.inj (hfits.symm.trans heq)).2]

/-- A worker in the table after an update is the one that was there, but for its stage. -/
theorem lookup_advance {m : ℕ} {other : Worker τ}
    (hworker : world.workers.lookup n = some worker)
    (h : (world.advance n worker stage seen).workers.lookup m = some other) :
    ∃ old, world.workers.lookup m = some old ∧ old.storeNamespace = other.storeNamespace ∧
      old.delivery = other.delivery ∧ (m = n ∧ other.stage = stage ∨ m ≠ n ∧ other = old) := by
  rw [DeliveryWorld.advance, lookup_insert] at h
  split at h
  · next hm =>
    subst hm
    cases h
    exact ⟨worker, hworker, rfl, rfl, .inl ⟨rfl, rfl⟩⟩
  · next hm => exact ⟨other, h, rfl, rfl, .inr ⟨hm, rfl⟩⟩

theorem Worker.key_eq {old other : Worker τ} (hnamespace : old.storeNamespace = other.storeNamespace)
    (hdelivery : old.delivery = other.delivery) : old.key = other.key := by
  rw [Worker.key, Worker.key, hnamespace, hdelivery]

/-- What concerns other deliveries only leaves the transfer of this one as it is. -/
theorem Tracks.frame {world' : DeliveryWorld τ} {key : DeliveryKey} {s : Transfer.State DeliveryOutcome}
    {seen : List Observation} (hs : Tracks world key s)
    (htrace : world'.trace = world.trace ++ seen) (habout : ∀ o ∈ seen, o.about ≠ some key)
    (hrow : world'.database.deliveries key = world.database.deliveries key)
    (hworkers : ∀ m other, other.key = key →
      (world'.workers.lookup m = some other ↔ world.workers.lookup m = some other)) :
    Tracks world' key s := by
  refine ⟨?_, by rw [hrow]; exact hs.unknown, by rw [hrow]; exact hs.part,
    by rw [hrow]; exact hs.ready, fun m other hother hsame => ?_, fun part outcome heq => ?_⟩
  · rw [htrace]
    exact hs.transfers.others habout
  · exact hs.held m other ((hworkers m other hsame).mp hother) hsame
  · obtain ⟨m, other, hother, hsame, hawaits⟩ := hs.awaited part outcome heq
    exact ⟨m, other, (hworkers m other hsame).mpr hother, hsame, hawaits⟩

theorem lookup_insert_of_key {workers : FinMap ℕ (Worker τ)} {key : DeliveryKey}
    (hkey : worker.key ≠ key) (hold : ∀ old, workers.lookup n = some old → old.key ≠ key) (m : ℕ)
    (other : Worker τ) (hsame : other.key = key) :
    (workers.insert n worker).lookup m = some other ↔ workers.lookup m = some other := by
  rw [lookup_insert]
  split
  · next hmn =>
    subst hmn
    refine ⟨fun heq => ?_, fun hother => absurd hsame (hold other hother)⟩
    cases heq
    exact absurd hsame hkey
  · rfl

variable {database : DeliveryDatabase}

theorem Holds.of_eq {old other : Worker τ} (h : Holds database old row)
    (hnamespace : old.storeNamespace = other.storeNamespace)
    (hdelivery : old.delivery = other.delivery) : Holds database other row := by
  obtain ⟨hfound, hstatus, hpart, hbinding, hpayload⟩ := h
  rw [Worker.key_eq hnamespace hdelivery] at hfound
  rw [hdelivery] at hpart hbinding hpayload
  exact ⟨hfound, hstatus, hpart, hbinding, hpayload⟩

theorem DeliveryInvariant.advance (h : DeliveryInvariant world)
    (hworker : world.workers.lookup n = some worker)
    (hmove : StageMove worker world.revoked stage seen) :
    DeliveryInvariant (world.advance n worker stage seen) where
  holds m other hother := by
    obtain ⟨old, hold, hnamespace, hdelivery, -⟩ := lookup_advance hworker hother
    obtain ⟨row, hrow⟩ := h.holds m old hold
    exact ⟨row, hrow.of_eq hnamespace hdelivery⟩
  unique m k first second hfirst hsecond hkey := by
    obtain ⟨old, hold, hnamespace, hdelivery, -⟩ := lookup_advance hworker hfirst
    obtain ⟨old', hold', hnamespace', hdelivery', -⟩ := lookup_advance hworker hsecond
    refine h.unique m k old old' hold hold' ?_
    rw [Worker.key_eq hnamespace hdelivery, Worker.key_eq hnamespace' hdelivery', hkey]
  tracks key := by
    obtain ⟨s, hs⟩ := h.tracks key
    by_cases hkey : worker.key = key
    · subst hkey
      obtain ⟨row, hrow⟩ := h.holds n worker hworker
      have hpart : s.part = worker.delivery.partIndex := (hs.part row hrow.found).trans hrow.part
      obtain ⟨s', hs', hpart', hfits, hawaits⟩ :=
        hmove.transfers hs.transfers hpart (hs.held n worker hworker rfl)
      refine ⟨s', hs', fun hnone => ?_, fun row' hrow' => hpart'.trans (hs.part row' hrow'),
        fun row' hrow' hpending => ?_, fun m other hother hsame => ?_,
        fun part outcome heq => ⟨n, _, lookup_insert_self, rfl, hawaits part outcome heq⟩⟩
      · exact absurd (hnone.symm.trans hrow.found) (by simp)
      · obtain rfl : row = row' := some.inj (hrow.found.symm.trans hrow')
        rw [hrow.status] at hpending
        cases hpending
      · obtain ⟨old, hold, hnamespace, hdelivery, hstage⟩ := lookup_advance hworker hother
        have hmn : m = n :=
          h.unique m n old worker hold hworker ((Worker.key_eq hnamespace hdelivery).trans hsame)
        subst hmn
        obtain rfl : worker = old := some.inj (hworker.symm.trans hold)
        rcases hstage with ⟨-, hstage⟩ | ⟨hne, -⟩
        · rw [hstage, ← hdelivery]
          exact hfits
        · exact absurd rfl hne
    · refine ⟨s, hs.frame rfl (fun o ho => ?_) rfl (lookup_insert_of_key hkey fun old hold => ?_)⟩
      · rw [hmove.about o ho]
        exact fun heq => hkey (some.inj heq)
      · rwa [← some.inj (hworker.symm.trans hold)]
  receipts key part message := by
    rw [DeliveryWorld.advance, mem_append]
    refine (h.receipts key part message).trans ⟨.inl, fun hmem => hmem.resolve_right fun hseen => ?_⟩
    cases hmove with
    | authorized attempt hstage hallowed => cases hseen
    | closed outcome houtcome | transmitted attempt outcome hstage => simp at hseen
    | left outcome hstage => cases hseen
  transmissions key binding part payload outcome hmem := by
    rw [DeliveryWorld.advance, mem_append] at hmem
    rcases hmem with hmem | hseen
    · exact h.transmissions key binding part payload outcome hmem
    · cases hmove with
      | authorized attempt hstage hallowed => cases hseen
      | closed outcome houtcome => simp at hseen
      | transmitted attempt outcome hstage =>
        obtain ⟨rfl, rfl, rfl, rfl, rfl⟩ := by simpa using hseen
        obtain ⟨row, hrow⟩ := h.holds n worker hworker
        exact ⟨row, hrow.found, hrow.binding, hrow.payload⟩
      | left outcome hstage => cases hseen
  revoked storeNamespace binding hmem := by
    rw [DeliveryWorld.advance, mem_append] at hmem
    rcases hmem with hmem | hseen
    · exact h.revoked storeNamespace binding hmem
    · have habout := hmove.about _ hseen
      cases habout
  locked m other lock hother hlock := by
    obtain ⟨old, hold, hnamespace, hdelivery, hstage⟩ := lookup_advance hworker hother
    rcases hstage with ⟨rfl, hstage⟩ | ⟨-, rfl⟩
    · obtain rfl : worker = old := some.inj (hworker.symm.trans hold)
      rw [Worker.locks, hstage, ← hnamespace, ← hdelivery] at hlock
      cases hmove with
      | authorized attempt hwas hallowed =>
        cases hlock
        exact hallowed
      | closed outcome houtcome => cases hlock
      | transmitted attempt outcome hwas =>
        refine h.locked m worker lock hworker ?_
        rw [Worker.locks, hwas]
        exact hlock
      | left outcome hwas => cases hlock
    · exact h.locked m other lock hold hlock
  fenced := by
    refine pairwise_append.mpr ⟨h.fenced, ?_, fun earlier hearlier later hlater => ?_⟩
    · cases hmove with
      | authorized attempt hstage hallowed => exact .nil
      | closed outcome houtcome | transmitted attempt outcome hstage => exact pairwise_singleton _ _
      | left outcome hstage => exact .nil
    · rintro storeNamespace binding identifier part payload outcome rfl rfl
      cases hmove with
      | authorized attempt hstage hallowed => cases hlater
      | closed outcome houtcome => simp at hlater
      | transmitted attempt outcome hstage =>
        -- the lock of the scope excludes a revocation before
        have hlock : worker.locks = some (worker.storeNamespace, worker.delivery.bindingIdentifier) := by
          rw [Worker.locks, hstage]
        obtain ⟨hkey, rfl, -⟩ := by simpa using hlater
        cases hkey
        exact h.locked n worker _ hworker hlock (h.revoked _ _ hearlier)
      | left outcome hstage => cases hlater

/-- What settling an outcome does to the row that is being sent. -/
structure Settles (database database' : DeliveryDatabase) (worker : Worker τ)
    (row row' : DeliveryRow) (outcome : DeliveryOutcome) : Prop where
  deliveries : database'.deliveries = Function.update database.deliveries worker.key (some row')
  parts : row'.parts = row.parts
  binding : row'.bindingRevision = row.bindingRevision
  progress :
    (∃ message, receiptOf outcome = some message ∧ row'.nextPart = row.nextPart + 1 ∧
      database'.receipts = Function.update database.receipts worker.key
        (Function.update (database.receipts worker.key) row.nextPart (some message)) ∧
      settlement worker.key row.nextPart outcome = .accepted worker.key row.nextPart message) ∨
    (mayRetry outcome = true ∧ row'.nextPart = row.nextPart ∧
      database'.receipts = database.receipts ∧
      settlement worker.key row.nextPart outcome = .postponed worker.key row.nextPart) ∨
    (row'.nextPart = row.nextPart ∧ row'.status ≠ .pending ∧
      database'.receipts = database.receipts ∧
      settlement worker.key row.nextPart outcome = .closed worker.key)

theorem sendingRow_of_holds (h : Holds database worker row) :
    sendingRow database worker.storeNamespace worker.delivery = some row := by
  have hfound : database.deliveries (worker.storeNamespace, worker.delivery.deliveryIdentifier) =
      some row := h.found
  rw [sendingRow, hfound]
  exact filter_eq_some_iff.mpr ⟨rfl, by simpa using ⟨h.status, h.part⟩⟩

theorem settles_reject {outcome : DeliveryOutcome}
    (h : Holds database worker row) (disposition : DeliveryDisposition)
    (hseen : settlement worker.key row.nextPart outcome = .closed worker.key) :
    ∃ row', Settles database
      (rejectDeliveryPart database worker.storeNamespace worker.delivery disposition) worker row row'
      outcome := by
  simp only [rejectDeliveryPart, sendingRow_of_holds h]
  refine ⟨_, rfl, rfl, rfl, .inr (.inr ⟨rfl, ?_, rfl, hseen⟩)⟩
  cases disposition <;> simp

theorem settles_of_settle {database' : DeliveryDatabase}
    {outcome : DeliveryOutcome} {now : Timestamp} (h : Holds database worker row)
    (hsettle : settleDelivery database worker.storeNamespace worker.delivery outcome now =
      some database') : ∃ row', Settles database database' worker row row' outcome := by
  cases outcome with
  | acknowledged identifier =>
    simp only [settleDelivery] at hsettle
    split at hsettle
    · next hvalid =>
      simp only [completeDeliveryPart, sendingRow_of_holds h] at hsettle
      split at hsettle
      · cases hsettle
      · cases hsettle
        refine ⟨_, rfl, rfl, rfl, .inl ⟨identifier, if_pos hvalid, rfl, ?_, if_pos hvalid⟩⟩
        rw [h.part]
        rfl
    · next hvalid =>
      cases hsettle
      exact settles_reject h .uncertain (if_neg hvalid)
  | rejected =>
    cases hsettle
    exact settles_reject h .rejected rfl
  | retryAfter seconds =>
    cases hsettle
    simp only [retryDeliveryPart, sendingRow_of_holds h]
    exact ⟨_, rfl, rfl, rfl, .inr (.inl ⟨rfl, rfl, rfl, rfl⟩)⟩
  | uncertain =>
    cases hsettle
    exact settles_reject h .uncertain rfl

theorem settlement_about (key : DeliveryKey) (part : ℕ) (outcome : DeliveryOutcome) :
    (settlement key part outcome).about = some key := by
  cases outcome with
  | acknowledged identifier =>
    rw [settlement]
    split <;> rfl
  | _ => rfl

theorem lookup_leave {seen : Observation} {m : ℕ} {other : Worker τ}
    (h : (world.leave n database seen).workers.lookup m = some other) :
    m ≠ n ∧ world.workers.lookup m = some other := by
  rw [DeliveryWorld.leave, lookup_delete] at h
  split at h
  · cases h
  · next hm => exact ⟨hm, h⟩

section

variable (h : DeliveryInvariant world)
include h

/-- A worker leaves with its row changed, and with its transfer moved accordingly. -/
theorem DeliveryInvariant.leave
    (hworker : world.workers.lookup n = some worker) {row row' : DeliveryRow}
    (hrow : Holds world.database worker row) {database : DeliveryDatabase} {seen : Observation}
    (hdeliveries : database.deliveries =
      Function.update world.database.deliveries worker.key (some row'))
    (hparts : row'.parts = row.parts) (hbinding : row'.bindingRevision = row.bindingRevision)
    (habout : seen.about = some worker.key)
    (hreceipts : ∀ key part message, database.receipts key part = some message ↔
      world.database.receipts key part = some message ∨ seen = .accepted key part message)
    (htransmitted : ∀ key binding part payload outcome,
      seen ≠ .transmitted key binding part payload outcome)
    (htracks : ∀ s, Transfers worker.key world.trace s → s.part = row.nextPart →
      worker.stage.Fits worker.delivery.partIndex s →
      ∃ s', Transfers worker.key (world.trace ++ [seen]) s' ∧ s'.part = row'.nextPart ∧
        (row'.status = .pending → s' = .ready row'.nextPart) ∧
        ∀ part outcome, s' ≠ .awaiting part outcome) :
    DeliveryInvariant (world.leave n database seen) where
  holds m other hother := by
    obtain ⟨hne, hother⟩ := lookup_leave hother
    obtain ⟨r, hr⟩ := h.holds m other hother
    have hkey : other.key ≠ worker.key := fun heq => hne (h.unique m n other worker hother hworker heq)
    refine ⟨r, ⟨?_, hr.status, hr.part, hr.binding, hr.payload⟩⟩
    rw [DeliveryWorld.leave, hdeliveries, update_of_ne hkey]
    exact hr.found
  unique m k first second hfirst hsecond :=
    h.unique m k first second (lookup_leave hfirst).2 (lookup_leave hsecond).2
  tracks key := by
    obtain ⟨s, hs⟩ := h.tracks key
    by_cases hkey : key = worker.key
    · subst hkey
      obtain ⟨s', hs', hpart, hready, hawaits⟩ := htracks s hs.transfers (hs.part row hrow.found)
        (hs.held n worker hworker rfl)
      have hself : (world.leave n database seen).database.deliveries worker.key = some row' := by
        rw [DeliveryWorld.leave, hdeliveries, update_self]
      refine ⟨s', hs', fun hnone => ?_, fun r hr => ?_, fun r hr hpending => ?_,
        fun m other hother hsame => ?_, fun part outcome heq => absurd heq (hawaits part outcome)⟩
      · exact absurd (hnone.symm.trans hself) (by simp)
      · obtain rfl := some.inj (hself.symm.trans hr)
        exact hpart
      · obtain rfl := some.inj (hself.symm.trans hr)
        exact hready hpending
      · obtain ⟨hne, hother⟩ := lookup_leave hother
        exact absurd (h.unique m n other worker hother hworker hsame) hne
    · refine ⟨s, hs.frame rfl (fun o ho => ?_) ?_ fun m other hsame => ⟨fun hother =>
        (lookup_leave hother).2, fun hother => (FinMap.lookup_delete_of_ne ?_).trans hother⟩⟩
      · rw [mem_singleton.mp ho, habout]
        exact fun heq => hkey (some.inj heq).symm
      · rw [DeliveryWorld.leave, hdeliveries, update_of_ne hkey]
      · rintro rfl
        obtain rfl : worker = other := some.inj (hworker.symm.trans hother)
        exact hkey hsame.symm
  receipts key part message := by
    refine (hreceipts key part message).trans ?_
    rw [DeliveryWorld.leave, mem_append, mem_singleton, h.receipts]
    exact or_congr Iff.rfl eq_comm
  transmissions key binding part payload outcome hmem := by
    rw [DeliveryWorld.leave, mem_append, mem_singleton] at hmem
    rcases hmem with hmem | hseen
    · obtain ⟨r, hr, hb, hp⟩ := h.transmissions key binding part payload outcome hmem
      by_cases hkey : key = worker.key
      · subst hkey
        obtain rfl : row = r := some.inj (hrow.found.symm.trans hr)
        refine ⟨row', ?_, hbinding.trans hb, by rw [hparts, hp]⟩
        rw [DeliveryWorld.leave, hdeliveries, update_self]
      · refine ⟨r, ?_, hb, hp⟩
        rw [DeliveryWorld.leave, hdeliveries, update_of_ne hkey]
        exact hr
    · exact absurd hseen.symm (htransmitted key binding part payload outcome)
  revoked storeNamespace binding hmem := by
    rw [DeliveryWorld.leave, mem_append, mem_singleton] at hmem
    rcases hmem with hmem | hseen
    · exact h.revoked storeNamespace binding hmem
    · rw [← hseen] at habout
      cases habout
  locked m other lock hother := h.locked m other lock (lookup_leave hother).2
  fenced := by
    refine pairwise_append.mpr ⟨h.fenced, pairwise_singleton _ _,
      fun earlier _ later hlater => ?_⟩
    rintro storeNamespace binding identifier part payload outcome - rfl
    exact htransmitted _ _ _ _ _ (mem_singleton.mp hlater).symm

theorem DeliveryInvariant.settle {outcome : DeliveryOutcome}
    {now : Timestamp} {database : DeliveryDatabase}
    (hworker : world.workers.lookup n = some worker) (hstage : worker.stage = .settling outcome)
    (hsettle : settleDelivery world.database worker.storeNamespace worker.delivery outcome now =
      some database) :
    DeliveryInvariant
      (world.leave n database (settlement worker.key worker.delivery.partIndex outcome)) := by
  obtain ⟨row, hrow⟩ := h.holds n worker hworker
  obtain ⟨row', hsettles⟩ := settles_of_settle hrow hsettle
  rw [← hrow.part]
  have habout := settlement_about worker.key row.nextPart outcome
  refine h.leave hworker hrow hsettles.deliveries hsettles.parts hsettles.binding habout ?_ ?_ ?_
  · intro key part message
    rcases hsettles.progress with ⟨m, -, -, hreceipts, hseen⟩ | ⟨-, -, hreceipts, hseen⟩ |
      ⟨-, -, hreceipts, hseen⟩
    · -- the receipt of this part is new: the parts before it are those with receipts
      have hnone : world.database.receipts worker.key row.nextPart = none := by
        by_contra hsome
        obtain ⟨old, hold⟩ := ne_none_iff_exists'.mp hsome
        obtain ⟨s, hs⟩ := h.tracks worker.key
        have haccepted := Transfer.accepted_of_run hs.transfers
        have hmem : row.nextPart ∈ Transfer.accepted
            (world.trace.filterMap (eventOf worker.key)) := by
          refine mem_filterMap.mpr ⟨.accepted row.nextPart old, ?_, rfl⟩
          exact mem_filterMap.mpr
            ⟨_, (h.receipts worker.key row.nextPart old).mp hold, by simp [eventOf]⟩
        rw [haccepted, hs.part row hrow.found] at hmem
        simp [Transfer.State.part] at hmem
      rw [hseen, hreceipts]
      by_cases hkey : key = worker.key
      · subst hkey
        rw [update_self]
        by_cases hpart : part = row.nextPart
        · subst hpart
          rw [update_self, hnone]
          simp
        · rw [update_of_ne hpart]
          simp [Ne.symm hpart]
      · rw [update_of_ne hkey]
        simp [Ne.symm hkey]
    · rw [hseen, hreceipts]
      simp
    · rw [hseen, hreceipts]
      simp
  · intro key binding part payload o heq
    rcases hsettles.progress with ⟨m, -, -, -, hseen⟩ | ⟨-, -, -, hseen⟩ | ⟨-, -, -, hseen⟩ <;>
    · rw [hseen] at heq
      cases heq
  · intro s hs hpart hfits
    rw [hstage, ← hrow.part] at hfits
    rcases hsettles.progress with ⟨m, hreceipt, hnext, -, hseen⟩ | ⟨hretry, hnext, -, hseen⟩ |
      ⟨hnext, hstatus, -, hseen⟩
    · rcases hfits with rfl | ⟨houtcome, rfl⟩
      · refine ⟨.ready (row.nextPart + 1), hs.concat (e := .accepted row.nextPart m) ?_ ?_,
          hnext.symm, (fun _ => by rw [hnext]), by simp⟩
        · rw [hseen]
          simp [eventOf]
        · simp [Transfer.step, hreceipt]
      · rcases houtcome with rfl | rfl <;> cases hreceipt
    · rcases hfits with rfl | ⟨houtcome, rfl⟩
      · refine ⟨.ready row.nextPart, hs.concat (e := .postponed row.nextPart) ?_ ?_, hnext.symm,
          (fun _ => by rw [hnext]), by simp⟩
        · rw [hseen]
          simp [eventOf]
        · simp [Transfer.step, hretry]
      · rcases houtcome with rfl | rfl <;> cases hretry
    · refine ⟨.closed s.part, hs.close ?_, hpart.trans hnext.symm,
        (fun hpending => absurd hpending hstatus), by simp⟩
      rw [hseen]
      simp [eventOf]

theorem DeliveryInvariant.abandon (hworker : world.workers.lookup n = some worker) :
    DeliveryInvariant (world.leave n world.database (.abandoned worker.key)) := by
  obtain ⟨row, hrow⟩ := h.holds n worker hworker
  refine h.leave hworker hrow (update_eq_self_iff.mpr hrow.found.symm).symm rfl rfl rfl
    (fun key part message => by simp) (fun key binding part payload outcome => by simp)
    fun s hs hpart hfits => ⟨.closed s.part, hs.close (by simp [eventOf]), hpart,
      fun hpending => ?_, by simp⟩
  rw [hrow.status] at hpending
  cases hpending

theorem DeliveryInvariant.enqueue {key : DeliveryKey}
    {row : DeliveryRow} (hnew : world.database.deliveries key = none) (hnext : row.nextPart = 0) :
    DeliveryInvariant { world with database := world.database.setRow key row } where
  holds m other hother := by
    obtain ⟨r, hr⟩ := h.holds m other hother
    have hkey : other.key ≠ key := by
      rintro rfl
      exact absurd (hnew.symm.trans hr.found) (by simp)
    exact ⟨r, (world.database.setRow_of_ne row hkey).trans hr.found, hr.status, hr.part, hr.binding,
      hr.payload⟩
  unique := h.unique
  tracks k := by
    obtain ⟨s, hs⟩ := h.tracks k
    by_cases hkey : k = key
    · subst hkey
      obtain rfl := hs.unknown hnew
      have hself := world.database.setRow_self k row
      refine ⟨_, hs.transfers, fun hnone => ?_, fun r hr => ?_, fun r hr _ => ?_, hs.held,
        hs.awaited⟩
      · exact absurd (hnone.symm.trans hself) (by simp)
      · obtain rfl := some.inj (hself.symm.trans hr)
        exact hnext.symm
      · obtain rfl := some.inj (hself.symm.trans hr)
        rw [hnext]
    · exact ⟨s, hs.frame (append_nil _).symm (by simp) (world.database.setRow_of_ne row hkey)
        fun _ _ _ => Iff.rfl⟩
  receipts := h.receipts
  transmissions k binding part payload outcome hmem := by
    obtain ⟨r, hr, hb, hp⟩ := h.transmissions k binding part payload outcome hmem
    have hkey : k ≠ key := by
      rintro rfl
      exact absurd (hnew.symm.trans hr) (by simp)
    exact ⟨r, (world.database.setRow_of_ne row hkey).trans hr, hb, hp⟩
  revoked := h.revoked
  locked := h.locked
  fenced := h.fenced

theorem DeliveryInvariant.claim {row : DeliveryRow}
    (hfree : world.workers.lookup n = none) (hstage : worker.stage = .claimed)
    (hrow : world.database.deliveries worker.key = some row) (hstatus : row.status = .pending)
    (hpart : row.nextPart = worker.delivery.partIndex)
    (hbinding : row.bindingRevision = worker.delivery.bindingIdentifier)
    (hpayload : row.parts[worker.delivery.partIndex]? = some worker.delivery.partPayload) :
    DeliveryInvariant { world with
      database := world.database.setRow worker.key { row with status := .sending }
      workers := world.workers.insert n worker } := by
  have hself := world.database.setRow_self worker.key { row with status := .sending }
  -- a row that is pending is held by nobody
  have hunheld : ∀ m other, world.workers.lookup m = some other → other.key ≠ worker.key := by
    intro m other hother heq
    obtain ⟨r, hr⟩ := h.holds m other hother
    have hfound := hr.found
    rw [heq] at hfound
    obtain rfl : row = r := some.inj (hrow.symm.trans hfound)
    have hsending := hr.status
    rw [hstatus] at hsending
    cases hsending
  have hlookup : ∀ {m other}, (world.workers.insert n worker).lookup m = some other →
      m = n ∧ other = worker ∨ m ≠ n ∧ world.workers.lookup m = some other := by
    intro m other hother
    rw [lookup_insert] at hother
    split at hother
    · next hm => exact .inl ⟨hm, (some.inj hother).symm⟩
    · next hm => exact .inr ⟨hm, hother⟩
  refine ⟨fun m other hother => ?_, fun m k first second hfirst hsecond hkey => ?_, fun key => ?_,
    h.receipts, fun key binding part payload outcome hmem => ?_, h.revoked,
    fun m other lock hother hlock => ?_, h.fenced⟩
  · rcases hlookup hother with ⟨rfl, rfl⟩ | ⟨-, hother⟩
    · exact ⟨_, hself, rfl, hpart, hbinding, hpayload⟩
    · obtain ⟨r, hr⟩ := h.holds m other hother
      exact ⟨r, (world.database.setRow_of_ne _ (hunheld m other hother)).trans hr.found, hr.status,
        hr.part, hr.binding, hr.payload⟩
  · rcases hlookup hfirst with ⟨rfl, rfl⟩ | ⟨-, hold⟩ <;>
      rcases hlookup hsecond with ⟨rfl, rfl⟩ | ⟨-, hold'⟩
    · rfl
    · exact absurd hkey.symm (hunheld k second hold')
    · exact absurd hkey (hunheld m first hold)
    · exact h.unique m k first second hold hold' hkey
  · obtain ⟨s, hs⟩ := h.tracks key
    by_cases hkey : key = worker.key
    · subst hkey
      refine ⟨s, hs.transfers, fun hnone => ?_, fun r hr => ?_, fun r hr hpending => ?_,
        fun m other hother hsame => ?_, fun part outcome heq => ?_⟩
      · exact absurd (hnone.symm.trans hself) (by simp)
      · obtain rfl := some.inj (hself.symm.trans hr)
        exact hs.part row hrow
      · obtain rfl := some.inj (hself.symm.trans hr)
        cases hpending
      · rcases hlookup hother with ⟨rfl, rfl⟩ | ⟨-, hother⟩
        · rw [hstage, ← hpart]
          exact hs.ready row hrow hstatus
        · exact absurd hsame (hunheld m other hother)
      · cases (hs.ready row hrow hstatus).symm.trans heq
    · refine ⟨s, hs.frame (append_nil _).symm (by simp) (world.database.setRow_of_ne _ hkey)
        (lookup_insert_of_key (Ne.symm hkey) fun old hold => ?_)⟩
      cases hfree.symm.trans hold
  · obtain ⟨r, hr, hb, hp⟩ := h.transmissions key binding part payload outcome hmem
    by_cases hkey : key = worker.key
    · subst hkey
      obtain rfl : row = r := some.inj (hrow.symm.trans hr)
      exact ⟨_, hself, hb, hp⟩
    · exact ⟨r, (world.database.setRow_of_ne _ hkey).trans hr, hb, hp⟩
  · rcases hlookup hother with ⟨rfl, rfl⟩ | ⟨-, hother⟩
    · rw [Worker.locks, hstage] at hlock
      cases hlock
    · exact h.locked m other lock hother hlock

end

theorem revokeBinding_deliveries (db : DeliveryDatabase) (storeNamespace binding : Text)
    {key : DeliveryKey} {row' : DeliveryRow}
    (h : (revokeBinding db storeNamespace binding).deliveries key = some row') :
    ∃ row, db.deliveries key = some row ∧ row'.nextPart = row.nextPart ∧
      (row'.status = .pending → row' = row) := by
  obtain ⟨row, hrow, heq⟩ := map_eq_some_iff.mp h
  refine ⟨row, hrow, ?_⟩
  split at heq
  · subst heq
    exact ⟨rfl, fun hpending => by cases hpending⟩
  · exact ⟨by rw [heq], fun _ => heq.symm⟩

theorem revokeBinding_found {db : DeliveryDatabase} (storeNamespace binding : Text)
    {key : DeliveryKey} {row : DeliveryRow} (h : db.deliveries key = some row) :
    ∃ row', (revokeBinding db storeNamespace binding).deliveries key = some row' ∧
      row'.parts = row.parts ∧ row'.bindingRevision = row.bindingRevision ∧
      (row.status ≠ .pending → row' = row) := by
  refine ⟨_, map_eq_some_iff.mpr ⟨row, h, rfl⟩, ?_⟩
  split
  · next hpending => exact ⟨rfl, rfl, fun hnot => absurd hpending.2.2 hnot⟩
  · exact ⟨rfl, rfl, fun _ => rfl⟩

theorem DeliveryInvariant.revoke (h : DeliveryInvariant world) {storeNamespace binding : Text}
    (hunlocked : ∀ n worker, world.workers.lookup n = some worker →
      worker.locks ≠ some (storeNamespace, binding)) :
    DeliveryInvariant { world with
      database := revokeBinding world.database storeNamespace binding
      revoked := (storeNamespace, binding) :: world.revoked
      trace := world.trace ++ [.revoked storeNamespace binding] } where
  holds m other hother := by
    obtain ⟨r, hr⟩ := h.holds m other hother
    obtain ⟨r', hr', -, -, hsame⟩ := revokeBinding_found storeNamespace binding hr.found
    obtain rfl := hsame (by rw [hr.status]; simp)
    exact ⟨_, hr', hr.status, hr.part, hr.binding, hr.payload⟩
  unique := h.unique
  tracks key := by
    obtain ⟨s, hs⟩ := h.tracks key
    refine ⟨s, hs.transfers.others fun o ho => ?_, fun hnone => ?_, fun r' hr' => ?_,
      fun r' hr' hpending => ?_, hs.held, hs.awaited⟩
    · rw [mem_singleton.mp ho]
      simp [Observation.about]
    · exact hs.unknown (map_eq_none_iff.mp hnone)
    · obtain ⟨r, hr, hnext, -⟩ := revokeBinding_deliveries _ _ _ hr'
      rw [hs.part r hr, hnext]
    · obtain ⟨r, hr, -, hsame⟩ := revokeBinding_deliveries _ _ _ hr'
      obtain rfl := hsame hpending
      exact hs.ready _ hr hpending
  receipts key part message := by
    simp only [mem_append, mem_singleton, reduceCtorEq, or_false]
    exact h.receipts key part message
  transmissions key b part payload outcome hmem := by
    simp only [mem_append, mem_singleton, reduceCtorEq, or_false] at hmem
    obtain ⟨r, hr, hb, hp⟩ := h.transmissions key b part payload outcome hmem
    obtain ⟨r', hr', hparts, hbinding, -⟩ := revokeBinding_found storeNamespace binding hr
    exact ⟨r', hr', hbinding.trans hb, by rw [hparts, hp]⟩
  revoked ns b hmem := by
    rw [mem_append, mem_singleton] at hmem
    rcases hmem with hmem | hnew
    · exact mem_cons_of_mem _ (h.revoked ns b hmem)
    · obtain ⟨rfl, rfl⟩ := Observation.revoked.inj hnew
      exact mem_cons_self
  locked m other lock hother hlock hmem := by
    rcases mem_cons.mp hmem with rfl | hmem
    · exact hunlocked m other hother hlock
    · exact h.locked m other lock hother hlock hmem
  fenced := by
    refine pairwise_append.mpr ⟨h.fenced, pairwise_singleton _ _,
      fun earlier _ later hlater => ?_⟩
    rintro ns b identifier part payload outcome - rfl
    cases mem_singleton.mp hlater

end Kept

theorem DeliveryInvariant.step {decode : DeliveryRecord → Option τ} {world world' : DeliveryWorld τ}
    (h : DeliveryInvariant world) {e : DeliveryEvent}
    (hstep : Telegram.step decode world e = some world') : DeliveryInvariant world' := by
  cases move_of_step hstep with
  | same => exact h
  | enqueued key row hnew hnext hstatus => exact h.enqueue hnew hnext
  | claimed n worker row hfree hstage hrow hstatus hpart hbinding hpayload =>
    exact h.claim hfree hstage hrow hstatus hpart hbinding hpayload
  | advanced n worker stage seen hworker hmove => exact h.advance hworker hmove
  | settled n worker outcome now database hworker hstage hsettle =>
    exact h.settle hworker hstage hsettle
  | abandoned n worker hworker => exact h.abandon hworker
  | revoked storeNamespace binding hunlocked => exact h.revoke hunlocked

/-- Every delivery is a transfer in numbered parts. -/
theorem deliveryInvariant_of_reachable {decode : DeliveryRecord → Option τ}
    {world : DeliveryWorld τ} (h : Reachable (step decode) .init world) :
    DeliveryInvariant world :=
  h.invariant deliveryInvariant_init fun _ _ _ hinv _ hstep => hinv.step hstep

/-! ### What is seen of a run -/

section Runs

variable {decode : DeliveryRecord → Option τ} {world : DeliveryWorld τ}

variable {key : DeliveryKey} {outcome : DeliveryOutcome} {o : Observation} {part : ℕ}

/-- The transfer of a delivery passes through every split of the observations. -/
theorem DeliveryInvariant.run_split (h : DeliveryInvariant world) (key : DeliveryKey)
    {header rest : List Observation} {e : Transfer.Event DeliveryOutcome ℤ}
    (htrace : world.trace = header ++ o :: rest) (ho : eventOf key o = some e) :
    ∃ s, Tracks world key s ∧ Machine.run (Transfer.step receiptOf mayRetry) (.ready 0)
      (header.filterMap (eventOf key) ++ e :: rest.filterMap (eventOf key)) = some s := by
  obtain ⟨s, hs⟩ := h.tracks key
  refine ⟨s, hs, ?_⟩
  have hrun := hs.transfers
  rw [Transfers, htrace, filterMap_append, filterMap_cons_some ho] at hrun
  exact hrun

/-- The parts of a delivery that have been accepted, in order. -/
def acceptedParts (key : DeliveryKey) (trace : List Observation) : List ℕ :=
  Transfer.accepted (trace.filterMap (eventOf key))

theorem eventOf_eq_accepted {message : ℤ} :
    eventOf key o = some (.accepted part message) ↔ o = .accepted key part message := by
  cases o <;> simp [eventOf]

theorem eventOf_eq_transmitted
    :
    eventOf key o = some (.transmitted part outcome) ↔
      ∃ binding payload, o = .transmitted key binding part payload outcome := by
  cases o <;> simp [eventOf]

theorem eventOf_eq_closed :
    eventOf key o = some .closed ↔ o = .closed key ∨ o = .abandoned key := by
  cases o <;> simp [eventOf]

theorem accepted_mem_events {trace : List Observation} {message : ℤ} :
    .accepted part message ∈ trace.filterMap (eventOf key) ↔ .accepted key part message ∈ trace := by
  simp only [mem_filterMap, eventOf_eq_accepted, exists_eq_right]

theorem transmitted_mem_events {trace : List Observation}
    :
    .transmitted part outcome ∈ trace.filterMap (eventOf key) ↔
      ∃ binding payload, .transmitted key binding part payload outcome ∈ trace := by
  simp only [mem_filterMap, eventOf_eq_transmitted]
  constructor
  · rintro ⟨o, ho, binding, payload, rfl⟩
    exact ⟨binding, payload, ho⟩
  · rintro ⟨binding, payload, ho⟩
    exact ⟨_, ho, binding, payload, rfl⟩

/-- What is known of every delivery in a run. -/
structure DeliveredInOrder (world : DeliveryWorld τ) (key : DeliveryKey) : Prop where
  /-- A part is sent when exactly the earlier ones have been acknowledged. -/
  inOrder : ∀ header rest binding part payload outcome,
    world.trace = header ++ .transmitted key binding part payload outcome :: rest →
    acceptedParts key header = List.range part
  /-- What is sent is that part of the delivery. -/
  content : ∀ binding part payload outcome,
    .transmitted key binding part payload outcome ∈ world.trace →
    ∃ row, world.database.deliveries key = some row ∧ row.bindingRevision = binding ∧
      row.parts[part]? = some payload
  /-- A part is sent again only after a definite rejection of it. -/
  again : ∀ header rest binding part payload outcome,
    world.trace = header ++ .transmitted key binding part payload outcome :: rest →
    (∃ b p o, .transmitted key b part p o ∈ rest) → ∃ seconds, outcome = .retryAfter seconds
  /-- Nothing is sent after an uncertain outcome. -/
  uncertain : ∀ header rest binding part payload,
    world.trace = header ++ .transmitted key binding part payload .uncertain :: rest →
    ∀ b j p o, .transmitted key b j p o ∉ rest
  /-- Nothing is sent after a crash with the claim, or once the delivery is over. -/
  ended : ∀ header rest o, o = .abandoned key ∨ o = .closed key →
    world.trace = header ++ o :: rest → ∀ b j p o, .transmitted key b j p o ∉ rest

/-- What is known of the receipts of a delivery. -/
structure ReceiptsExact (world : DeliveryWorld τ) (key : DeliveryKey) : Prop where
  recorded : ∀ part message, world.database.receipts key part = some message ↔
    .accepted key part message ∈ world.trace
  /-- The parts with receipts are those before the next part, each of them accepted once. -/
  progress : ∀ row, world.database.deliveries key = some row →
    acceptedParts key world.trace = List.range row.nextPart ∧
      ∀ part, (world.database.receipts key part).isSome = true ↔ part < row.nextPart
  /-- A receipt is that of an acknowledgement before it. -/
  origin : ∀ header rest part message,
    world.trace = header ++ .accepted key part message :: rest →
    ∃ binding payload, .transmitted key binding part payload (.acknowledged message) ∈ header
  /-- An acknowledgement has its receipt, unless it has not been recorded yet or never will. -/
  acknowledged : ∀ header rest binding part payload message,
    world.trace = header ++ .transmitted key binding part payload (.acknowledged message) :: rest →
    receiptOf (.acknowledged message) = some message →
    world.database.receipts key part = some message ∨
      (.closed key ∈ rest ∨ .abandoned key ∈ rest) ∨
      ∃ n worker, world.workers.lookup n = some worker ∧ worker.key = key ∧
        worker.stage.Awaits (.acknowledged message)

theorem DeliveryInvariant.deliveredInOrder (h : DeliveryInvariant world) (key : DeliveryKey) :
    DeliveredInOrder world key where
  inOrder header rest binding part payload outcome htrace := by
    obtain ⟨s, -, hrun⟩ := h.run_split key htrace (eventOf_eq_transmitted.mpr ⟨_, _, rfl⟩)
    exact Transfer.accepted_before hrun
  content := h.transmissions key
  again header rest binding part payload outcome htrace hagain := by
    obtain ⟨b, p, o, hmem⟩ := hagain
    obtain ⟨s, -, hrun⟩ := h.run_split key htrace (eventOf_eq_transmitted.mpr ⟨_, _, rfl⟩)
    have hretry := Transfer.retryable_of_again hrun (transmitted_mem_events.mpr ⟨b, p, hmem⟩)
    cases outcome with
    | retryAfter seconds => exact ⟨seconds, rfl⟩
    | acknowledged identifier | rejected | uncertain => cases hretry
  uncertain header rest binding part payload htrace b j p o hmem := by
    obtain ⟨s, -, hrun⟩ := h.run_split key htrace (eventOf_eq_transmitted.mpr ⟨_, _, rfl⟩)
    obtain ⟨t, -, hrun⟩ := Transfer.run_split hrun
    exact Transfer.no_transmission_of_final (Transfer.ready_of_transmitted hrun).2 rfl rfl
      (transmitted_mem_events.mpr ⟨b, p, hmem⟩)
  ended header rest o ho htrace b j p outcome hmem := by
    obtain ⟨s, -, hrun⟩ := h.run_split key htrace (eventOf_eq_closed.mpr ho.symm)
    exact Transfer.no_transmission_after_closed hrun (transmitted_mem_events.mpr ⟨b, p, hmem⟩)

theorem receiptOf_eq_some {message : ℤ}
    (h : receiptOf outcome = some message) : outcome = .acknowledged message := by
  cases outcome with
  | acknowledged identifier =>
    simp only [receiptOf] at h
    split at h
    · rw [some.inj h]
    · cases h
  | rejected | retryAfter seconds | uncertain => cases h

theorem DeliveryInvariant.receiptsExact (h : DeliveryInvariant world) (key : DeliveryKey) :
    ReceiptsExact world key where
  recorded := h.receipts key
  progress row hrow := by
    obtain ⟨s, hs⟩ := h.tracks key
    have haccepted : acceptedParts key world.trace = List.range row.nextPart := by
      rw [acceptedParts, Transfer.accepted_of_run hs.transfers, hs.part row hrow,
        range_eq_range']
      rfl
    refine ⟨haccepted, fun part => ?_⟩
    rw [← mem_range, ← haccepted, acceptedParts, Transfer.mem_accepted,
      isSome_iff_exists]
    exact exists_congr fun message => (h.receipts key part message).trans accepted_mem_events.symm
  origin header rest part message htrace := by
    obtain ⟨s, -, hrun⟩ := h.run_split key htrace (eventOf_eq_accepted.mpr rfl)
    obtain ⟨outcome, hmem, hreceipt⟩ := Transfer.transmitted_of_accepted hrun
    obtain rfl := receiptOf_eq_some hreceipt
    exact transmitted_mem_events.mp hmem
  acknowledged header rest binding part payload message htrace hvalid := by
    obtain ⟨s, hs, hrun⟩ := h.run_split key htrace (eventOf_eq_transmitted.mpr ⟨_, _, rfl⟩)
    obtain ⟨t, -, hrun⟩ := Transfer.run_split hrun
    have hrest := (Transfer.ready_of_transmitted hrun).2
    rcases hevents : rest.filterMap (eventOf key) with _ | ⟨e, events⟩
    · -- nothing has happened since: some worker still has to settle it
      rw [hevents] at hrest
      exact .inr (.inr (hs.awaited part _ (some.inj hrest).symm))
    · rw [hevents] at hrest
      have hmem : e ∈ rest.filterMap (eventOf key) := hevents ▸ mem_cons_self
      obtain ⟨u, hu, -⟩ := bind_eq_some_iff.mp hrest
      cases e with
      | transmitted j o => cases hu
      | postponed j => simp [Transfer.step, mayRetry] at hu
      | closed =>
        obtain ⟨o, ho, heq⟩ := mem_filterMap.mp hmem
        rcases eventOf_eq_closed.mp heq with rfl | rfl
        · exact .inr (.inl (.inl ho))
        · exact .inr (.inl (.inr ho))
      | accepted j m =>
        simp only [Transfer.step] at hu
        split at hu
        · next hj =>
          obtain ⟨rfl, hm⟩ := hj
          obtain rfl : message = m := some.inj (hvalid.symm.trans hm)
          refine .inl ((h.receipts key j message).mpr ?_)
          rw [htrace]
          exact mem_append_right _ (mem_cons_of_mem _ (accepted_mem_events.mp hmem))
        · cases hu

/-- **Parts are sent in order, again only after a definite rejection, never after an uncertain
outcome or a crash, and not once the binding has been revoked.** -/
theorem durable_delivery (h : Reachable (step decode) .init world) :
    (∀ key, DeliveredInOrder world key ∧ ReceiptsExact world key) ∧
      ∀ header rest storeNamespace binding,
        world.trace = header ++ .revoked storeNamespace binding :: rest →
        ∀ identifier part payload outcome,
          .transmitted (storeNamespace, identifier) binding part payload outcome ∉ rest := by
  have hinv := deliveryInvariant_of_reachable h
  refine ⟨fun key => ⟨hinv.deliveredInOrder key, hinv.receiptsExact key⟩, ?_⟩
  intro header rest storeNamespace binding htrace identifier part payload outcome hmem
  have hfenced := hinv.fenced
  rw [htrace, pairwise_append, pairwise_cons] at hfenced
  exact hfenced.2.1.1 _ hmem _ _ _ _ _ _ rfl rfl

/-- **A delivery has one worker at a time**, whose row stays claimed with the part and the binding
that the worker sends; and no worker holds the lock of a binding that has been revoked. -/
theorem deliveries_held_exclusively (h : Reachable (step decode) .init world) :
    (∀ n m worker other, world.workers.lookup n = some worker →
      world.workers.lookup m = some other → worker.key = other.key → n = m) ∧
    ∀ n worker, world.workers.lookup n = some worker →
      (∃ row, Holds world.database worker row) ∧
      ∀ storeNamespace binding, .revoked storeNamespace binding ∈ world.trace →
        worker.locks ≠ some (storeNamespace, binding) := by
  have hinv := deliveryInvariant_of_reachable h
  refine ⟨hinv.unique, fun n worker hworker => ⟨hinv.holds n worker hworker, ?_⟩⟩
  intro storeNamespace binding hrevoked hlocks
  exact hinv.locked n worker _ hworker hlocks (hinv.revoked storeNamespace binding hrevoked)

end Runs

/-! ### A delivery with two parts -/

def exampleDelivery : List DeliveryEvent :=
  [.enqueue [] "d".toList "b".toList 7 [.null, .bool true] 0, .claim 0 [] "d".toList 0,
    .authorize 0, .transmit 0 (.error ⟨[], some 429, some 2, true⟩), .leaveScope 0, .settle 0 1,
    .claim 1 [] "d".toList 3000000, .authorize 1, .transmit 1 (.ok (some 12)), .leaveScope 1,
    .settle 1 3000001, .claim 0 [] "d".toList 3000002, .crash 0]

/-- The first part is sent twice, since it was rejected, and the second one not at all. -/
theorem durable_delivery_in_exampleDelivery :
    ∃ world : DeliveryWorld Unit, Reachable (step fun _ => some ()) .init world ∧
      DeliveredInOrder world ([], "d".toList) ∧
      world.database.receipts ([], "d".toList) 0 = some 12 := by
  have hrun : (Machine.run (step fun _ => some ()) .init exampleDelivery).any
      (fun world : DeliveryWorld Unit =>
        decide (world.database.receipts ([], "d".toList) 0 = some 12)) = true := by
    decide +kernel
  obtain ⟨world, h, hreceipt⟩ := exists_reachable_of_run hrun
  exact ⟨world, h, ((durable_delivery h).1 _).1, of_decide_eq_true hreceipt⟩

theorem deliveries_held_exclusively_in_exampleDelivery :
    ∃ world : DeliveryWorld Unit, Reachable (step fun _ => some ()) .init world ∧
      ∃ worker, world.workers.lookup 1 = some worker ∧ worker.delivery.partIndex = 0 ∧
        ∃ row, Holds world.database worker row := by
  have hrun : (Machine.run (step fun _ => some ()) .init (exampleDelivery.take 9)).any
      (fun world : DeliveryWorld Unit =>
        (world.workers.lookup 1).any (·.delivery.partIndex == 0)) = true := by
    decide +kernel
  obtain ⟨world, h, hpart⟩ := exists_reachable_of_run hrun
  obtain ⟨worker, hworker, hpart⟩ := (Option.any_eq_true _ _).mp hpart
  exact ⟨world, h, worker, hworker, beq_iff_eq.mp hpart,
    ((deliveries_held_exclusively h).2 1 worker hworker).1⟩

end Telegram

end HaskellAgent
