import HaskellAgent.Lib.AckQueue
import HaskellAgent.Loop.Input

/-!
# The steering queue

`InputQueueState` is the value of the `TVar` behind an `InputQueue`, and every operation of the
module is one transaction, so a function on that value.  Sequences are lists.  The queue does not
look at its inputs, so the model is generic in them and takes the byte measure as an argument.

Steering queues keep the prefix that was handed to the provider until it is acknowledged.  Seen
through `view`, which forgets the byte accounts and the wake marks, they are the prefix-acknowledged
queues of `AckQueue`.
-/

open List

namespace HaskellAgent

/-! ### The state -/

inductive PendingNoticeKind
  | mcp
  | subagent
  deriving DecidableEq, Repr

/-- A retained input. -/
structure InputEntry (ι : Type*) where
  entryInput : ι
  entryBytes : ℕ
  entryNoticeKind : Option PendingNoticeKind
  /-- The managed task a background notice belongs to; `none` for user guidance. -/
  entryBackgroundKey : Option Text
  entryWake : Bool

/-- The state of an input queue. -/
structure InputQueueState (ι : Type*) where
  queueEpoch : ℕ
  queueEntries : List (InputEntry ι)
  queueDeferredCompletions : List (InputEntry ι)
  queueRetainedCount : ℤ
  queueRetainedBytes : ℤ
  queueOmissionReported : Bool
  queueClosed : Bool
  queueReservedCount : ℕ
  queueBatchActive : Bool
  queueCountLimit : ℤ
  queueByteLimit : ℤ

def pendingInputCountLimit : ℤ := 256

def pendingInputByteLimit : ℤ := 8 * 1024 * 1024

def steeringInputCountLimit : ℤ := 128

def steeringInputByteLimit : ℤ := 64 * 1024 * 1024

variable {ι : Type*}

def emptyPendingState : InputQueueState ι where
  queueEpoch := 0
  queueEntries := []
  queueDeferredCompletions := []
  queueRetainedCount := 0
  queueRetainedBytes := 0
  queueOmissionReported := false
  queueClosed := false
  queueReservedCount := 0
  queueBatchActive := false
  queueCountLimit := pendingInputCountLimit
  queueByteLimit := pendingInputByteLimit

def emptySteeringState : InputQueueState ι :=
  { emptyPendingState with
    queueCountLimit := steeringInputCountLimit
    queueByteLimit := steeringInputByteLimit }

/-! ### Admission -/

/-- `saturatingAdd` on the signed accounts. -/
def saturatingAddInt (left right : ℤ) : ℤ :=
  if right ≤ 0 then left
  else if left > maxBound - right then maxBound
  else left + right

def entryBytesTotal (entries : List (InputEntry ι)) : ℤ :=
  entries.foldr (fun entry total => saturatingAddInt entry.entryBytes total) 0

/-- Append entries if the count and byte limits allow all of them. -/
def appendEntries (entries : List (InputEntry ι)) (state : InputQueueState ι) :
    Option (InputQueueState ι) :=
  let nextCount := state.queueRetainedCount + entries.length
  let nextBytes := saturatingAddInt state.queueRetainedBytes (entryBytesTotal entries)
  if nextCount > state.queueCountLimit ∨ nextBytes > state.queueByteLimit then none
  else some { state with
    queueEntries := state.queueEntries ++ entries
    queueRetainedCount := nextCount
    queueRetainedBytes := nextBytes }

/-- The recursion of `promoteDeferredCompletions`, on the completions still deferred. -/
def promoteLoop : List (InputEntry ι) → InputQueueState ι → InputQueueState ι
  | [], state => { state with queueDeferredCompletions := [] }
  | entry :: remaining, state =>
      match appendEntries [{ entry with entryWake := true }] state with
      | none => { state with queueDeferredCompletions := entry :: remaining }
      | some next => promoteLoop remaining next

/-- Move deferred completions into the queue while they fit. -/
def promoteDeferredCompletions (state : InputQueueState ι) : InputQueueState ι :=
  promoteLoop state.queueDeferredCompletions state

/-! ### The operations -/

def steeringClosedMessage : Text :=
  "The turn has already answered; submit guidance as a new turn.".toList

def steeringFullMessage : Text :=
  "Steering queue is full; wait for the active turn to consume guidance.".toList

def noticeTooLargeMessage : Text :=
  "Background completion notice exceeds the steering input byte limit.".toList

/-- `enqueueSteeringInputsSTM`: accept guidance, all of it or none. -/
def enqueueSteeringInputs (bytes : ι → ℕ) (state : InputQueueState ι) (inputs : List ι) :
    Except Text Unit × InputQueueState ι :=
  let measured := inputs.map fun input =>
    { entryInput := input, entryBytes := bytes input, entryNoticeKind := none
      entryBackgroundKey := none, entryWake := true }
  if state.queueClosed then (.error steeringClosedMessage, state)
  else match appendEntries measured state with
    | none => (.error steeringFullMessage, state)
    | some next => (.ok (), next)

/-- `enqueueBackgroundCompletionForEpoch`: a full queue defers the notice. -/
def enqueueBackgroundCompletion (bytes : ι → ℕ) (epoch : Option ℕ) (key : Text) (input : ι)
    (state : InputQueueState ι) : Except Text Bool × InputQueueState ι :=
  if epoch.any (· != state.queueEpoch) ||
      (state.queueEntries ++ state.queueDeferredCompletions).any
        (fun entry => entry.entryBackgroundKey == some key) then
    (.ok false, state)
  else if (bytes input : ℤ) > state.queueByteLimit then (.error noticeTooLargeMessage, state)
  else
    (.ok true, promoteDeferredCompletions
      { state with
        queueDeferredCompletions := state.queueDeferredCompletions ++
          [{ entryInput := input, entryBytes := bytes input, entryNoticeKind := none
             entryBackgroundKey := some key, entryWake := true }] })

def readSteeringInputs (state : InputQueueState ι) : List ι :=
  state.queueEntries.map (·.entryInput)

/-- `reserveInputQueueState`: protect the positions of every queued entry. -/
def reserveInputQueueState (state : InputQueueState ι) : InputQueueState ι :=
  { state with queueReservedCount := state.queueEntries.length }

def reserveSteeringInputs (state : InputQueueState ι) : List ι × InputQueueState ι :=
  (readSteeringInputs state, reserveInputQueueState state)

/-- Hand back what arrived after the last read, or refuse all further guidance.  The closing write
starts from the state read before the reservation. -/
def closeSteeringInputs (state : InputQueueState ι) : List ι × InputQueueState ι :=
  if state.queueEntries.isEmpty then ([], { state with queueClosed := true })
  else (readSteeringInputs state, reserveInputQueueState state)

/-- The text of an entry that is part of a user submission. -/
def userText (entry : InputEntry TurnInput) : List Text :=
  match entry.entryBackgroundKey, entry.entryInput with
  | none, .userMessage text => [text]
  | none, .userMessageWithAttachments text _ => [text]
  | _, _ => []

/-- Reserve the queued inputs together with the display text of their turn. -/
def readSteeringTurn (state : InputQueueState TurnInput) :
    (Text × List TurnInput) × InputQueueState TurnInput :=
  ((List.intercalate "\n\n".toList (state.queueEntries.flatMap userText),
    readSteeringInputs state), reserveInputQueueState state)

/-- Clear the wake mark of an entry. -/
def clearWake (entry : InputEntry ι) : InputEntry ι := { entry with entryWake := false }

/-- Consume the idle-wake edges; `none` while there is none to consume. -/
def awaitSteeringInput (state : InputQueueState ι) : Option (InputQueueState ι) :=
  if (state.queueEntries ++ state.queueDeferredCompletions).any (·.entryWake) then
    some { state with
      queueEntries := state.queueEntries.map clearWake
      queueDeferredCompletions := state.queueDeferredCompletions.map clearWake }
  else none

/-- Whether user guidance waits beyond the first `submittedCount` entries: the condition on which
`awaitUserSteeringAfter` blocks. -/
def awaitUserSteeringAfter (state : InputQueueState ι) (submittedCount : ℤ) : Bool :=
  (state.queueEntries.drop (max 0 submittedCount).toNat).any
    (fun entry => entry.entryBackgroundKey == none)

/-- The queue without the unreserved notices of a task. -/
def withdrawCompletion (key : Text) (state : InputQueueState ι) : InputQueueState ι :=
  let reserved := state.queueEntries.take state.queueReservedCount
  let unreserved := state.queueEntries.drop state.queueReservedCount
  let kept := reserved ++ unreserved.filter (fun entry => entry.entryBackgroundKey != some key)
  { state with
    queueEntries := kept
    queueRetainedCount := state.queueRetainedCount - (state.queueEntries.length - kept.length)
    queueRetainedBytes := entryBytesTotal kept
    queueDeferredCompletions := state.queueDeferredCompletions.filter
      (fun entry => entry.entryBackgroundKey != some key) }

/-- Remove the notices of a task that were not yet handed to a provider. -/
def dismissBackgroundCompletion (key : Text) (state : InputQueueState ι) : InputQueueState ι :=
  promoteDeferredCompletions (withdrawCompletion key state)

/-- Keep earlier guidance without letting it restart a cancelled turn. -/
def suppressUserSteeringWake (state : InputQueueState ι) : InputQueueState ι :=
  { state with
    queueEntries := state.queueEntries.map fun entry =>
      match entry.entryBackgroundKey with
      | none => clearWake entry
      | some _ => entry }

/-- The queue without its first `n` entries. -/
def dropAcknowledged (n : ℕ) (state : InputQueueState ι) : InputQueueState ι :=
  let removed := state.queueEntries.take n
  { state with
    queueEntries := state.queueEntries.drop n
    queueRetainedCount := max 0 (state.queueRetainedCount - removed.length)
    queueRetainedBytes := max 0 (state.queueRetainedBytes - entryBytesTotal removed)
    queueReservedCount := state.queueReservedCount - n }

/-- Remove an acknowledged prefix. -/
def commitSteeringInputs (count : ℤ) (state : InputQueueState ι) : InputQueueState ι :=
  promoteDeferredCompletions (dropAcknowledged (max 0 count).toNat state)

/-- Forget everything queued, and start a new epoch. -/
def clearPendingState (state : InputQueueState ι) : InputQueueState ι :=
  { state with
    queueEpoch := state.queueEpoch + 1
    queueEntries := []
    queueDeferredCompletions := []
    queueRetainedCount := 0
    queueRetainedBytes := 0
    queueOmissionReported := false
    queueClosed := false
    queueReservedCount := 0 }

def clearSteeringInputs (state : InputQueueState ι) : InputQueueState ι := clearPendingState state

/-! ### The queue as a prefix-acknowledged queue -/

/-- What the readers of a queue see of an entry. -/
def InputEntry.view (entry : InputEntry ι) : ι × Option Text :=
  (entry.entryInput, entry.entryBackgroundKey)

/-- What the readers of a queue see of it. -/
def InputQueueState.view (state : InputQueueState ι) : AckQueue (ι × Option Text) where
  entries := state.queueEntries.map InputEntry.view
  reserved := state.queueReservedCount

/-- Every deferred notice satisfies `P`. -/
def InputQueueState.DeferredAll (P : ι × Option Text → Prop) (state : InputQueueState ι) : Prop :=
  ∀ entry ∈ state.queueDeferredCompletions, P entry.view

variable {P : ι × Option Text → Prop}

@[simp] theorem view_clearWake (entry : InputEntry ι) : (clearWake entry).view = entry.view := rfl

/-- **Admission appends and changes nothing else a reader sees.** -/
theorem appendEntries_eq_some {entries : List (InputEntry ι)} {state next : InputQueueState ι}
    (h : appendEntries entries state = some next) :
    next.queueEntries = state.queueEntries ++ entries ∧
      next.queueReservedCount = state.queueReservedCount ∧
      next.queueDeferredCompletions = state.queueDeferredCompletions ∧
      next.queueClosed = state.queueClosed := by
  simp only [appendEntries] at h
  split at h
  · cases h
  · rw [Option.some.injEq] at h
    subst h
    exact ⟨rfl, rfl, rfl, rfl⟩

/-- The promotion loop moves a prefix of the deferred notices to the end of the queue. -/
theorem promoteLoop_spec (deferred : List (InputEntry ι)) (state : InputQueueState ι) :
    ∃ moved left, deferred = moved ++ left ∧
      (promoteLoop deferred state).queueDeferredCompletions = left ∧
      (promoteLoop deferred state).queueReservedCount = state.queueReservedCount ∧
      (promoteLoop deferred state).queueEntries
        = state.queueEntries ++ moved.map (fun entry => { entry with entryWake := true }) := by
  induction deferred generalizing state with
  | nil => exact ⟨[], [], rfl, rfl, rfl, by simp [promoteLoop]⟩
  | cons entry remaining ih =>
    cases happ : appendEntries [{ entry with entryWake := true }] state with
    | none =>
      -- the next notice does not fit: it and everything behind it stays deferred
      refine ⟨[], entry :: remaining, rfl, ?_⟩
      simp [promoteLoop, happ]
    | some next =>
      obtain ⟨hent, hres, -, -⟩ := appendEntries_eq_some happ
      obtain ⟨moved, left, hsplit, hleft, hresv, hentries⟩ := ih next
      refine ⟨entry :: moved, left, by rw [hsplit, cons_append], ?_, ?_, ?_⟩
      · simpa [promoteLoop, happ] using hleft
      · simpa [promoteLoop, happ, hres] using hresv
      · simp [promoteLoop, happ, hentries, hent]

variable {state : InputQueueState ι}

/-- **Promotion appends deferred notices.** -/
theorem view_promoteDeferredCompletions (hdef : state.DeferredAll P) :
    ∃ new : List (ι × Option Text), (∀ e ∈ new, P e) ∧
      (promoteDeferredCompletions state).view = state.view.append new ∧
      (promoteDeferredCompletions state).DeferredAll P := by
  obtain ⟨moved, left, hsplit, hleft, hres, hentries⟩ :=
    promoteLoop_spec state.queueDeferredCompletions state
  refine ⟨moved.map InputEntry.view, ?_, ?_, ?_⟩
  · intro e he
    obtain ⟨entry, hmem, rfl⟩ := List.mem_map.mp he
    exact hdef entry (by rw [hsplit]; exact mem_append_left _ hmem)
  · simp only [InputQueueState.view, promoteDeferredCompletions, hres, hentries, map_append,
      List.map_map, AckQueue.append]
    rfl
  · intro entry hmem
    rw [promoteDeferredCompletions, hleft] at hmem
    exact hdef entry (by rw [hsplit]; exact mem_append_right _ hmem)

/-- Accepted guidance is appended; refused guidance leaves the queue as it was. -/
theorem view_enqueueSteeringInputs (bytes : ι → ℕ) (state : InputQueueState ι) (inputs : List ι) :
    ((enqueueSteeringInputs bytes state inputs).1 = .ok () ∧
        (enqueueSteeringInputs bytes state inputs).2.view
          = state.view.append (inputs.map fun input => (input, none)) ∧
        (enqueueSteeringInputs bytes state inputs).2.queueDeferredCompletions
          = state.queueDeferredCompletions) ∨
      ((∃ message, (enqueueSteeringInputs bytes state inputs).1 = .error message) ∧
        (enqueueSteeringInputs bytes state inputs).2 = state) := by
  unfold enqueueSteeringInputs
  simp only
  split
  · exact .inr ⟨⟨_, rfl⟩, rfl⟩
  · split
    · exact .inr ⟨⟨_, rfl⟩, rfl⟩
    · next next happ =>
      obtain ⟨hent, hres, hdef, -⟩ := appendEntries_eq_some happ
      refine .inl ⟨rfl, ?_, hdef⟩
      simp only [InputQueueState.view, hent, hres, map_append, List.map_map, AckQueue.append]
      rfl

/-- A background notice only appends notices, its own or deferred ones. -/
theorem view_enqueueBackgroundCompletion (bytes : ι → ℕ) (epoch : Option ℕ) (key : Text)
    (input : ι) (hdef : state.DeferredAll P)
    (hP : P (input, some key)) :
    ∃ new : List (ι × Option Text), (∀ e ∈ new, P e) ∧
      (enqueueBackgroundCompletion bytes epoch key input state).2.view = state.view.append new ∧
      (enqueueBackgroundCompletion bytes epoch key input state).2.DeferredAll P := by
  unfold enqueueBackgroundCompletion
  split
  · exact ⟨[], by simp, by simp, hdef⟩
  · split
    · exact ⟨[], by simp, by simp, hdef⟩
    · refine view_promoteDeferredCompletions ?_
      intro entry hmem
      rcases mem_append.mp hmem with h | h
      · exact hdef entry h
      · rw [mem_singleton] at h
        rw [h]
        exact hP

@[simp] theorem view_reserveInputQueueState (state : InputQueueState ι) :
    (reserveInputQueueState state).view = state.view.reserve := by
  simp [reserveInputQueueState, InputQueueState.view, AckQueue.reserve]

/-- Closing reserves, whether or not it refuses further guidance. -/
theorem view_closeSteeringInputs (hwf : state.view.WellFormed) :
    (closeSteeringInputs state).2.view = state.view.reserve := by
  unfold closeSteeringInputs
  split
  · next hempty =>
    -- nothing is queued, so nothing was reserved
    rw [List.isEmpty_iff] at hempty
    simp only [AckQueue.WellFormed, InputQueueState.view, hempty, map_nil, length_nil,
      Nat.le_zero] at hwf
    simp [InputQueueState.view, AckQueue.reserve, hempty, hwf]
  · exact view_reserveInputQueueState state

theorem view_awaitSteeringInput {state next : InputQueueState ι}
    (h : awaitSteeringInput state = some next) : next.view = state.view := by
  unfold awaitSteeringInput at h
  split at h
  · rw [Option.some.injEq] at h
    subst h
    simp [InputQueueState.view, Function.comp_def]
  · cases h

theorem view_withdrawCompletion (key : Text) (state : InputQueueState ι) :
    (withdrawCompletion key state).view = state.view.dismiss (fun e => e.2 == some key) := by
  simp only [withdrawCompletion, InputQueueState.view, AckQueue.dismiss, map_append,
    map_take, ← map_drop, List.filter_map]
  rfl

/-- Dismissal withdraws unreserved notices and lets deferred ones in. -/
theorem view_dismissBackgroundCompletion (key : Text)
    (hdef : state.DeferredAll P) :
    ∃ new : List (ι × Option Text), (∀ e ∈ new, P e) ∧
      (dismissBackgroundCompletion key state).view
        = (state.view.dismiss (fun e => e.2 == some key)).append new ∧
      (dismissBackgroundCompletion key state).DeferredAll P := by
  have hkept : (withdrawCompletion key state).DeferredAll P :=
    fun entry hmem => hdef entry (mem_of_mem_filter hmem)
  rw [← view_withdrawCompletion]
  exact view_promoteDeferredCompletions hkept

/-- A commit removes the acknowledged prefix and lets deferred notices in. -/
theorem view_commitSteeringInputs (count : ℕ)
    (hdef : state.DeferredAll P) :
    ∃ new : List (ι × Option Text), (∀ e ∈ new, P e) ∧
      (commitSteeringInputs count state).view = (state.view.commit count).append new ∧
      (commitSteeringInputs count state).DeferredAll P := by
  have hcount : (max 0 (count : ℤ)).toNat = count := by omega
  have hview : (dropAcknowledged count state).view = state.view.commit count := by
    simp [dropAcknowledged, InputQueueState.view, AckQueue.commit, map_drop]
  unfold commitSteeringInputs
  rw [hcount, ← hview]
  exact view_promoteDeferredCompletions hdef

/-- The wait looks at the entries behind the submitted ones. -/
theorem awaitUserSteeringAfter_eq (state : InputQueueState ι) (count : ℕ) :
    awaitUserSteeringAfter state count
      = (state.view.entries.drop count).any (fun e => e.2 == none) := by
  have hcount : (max 0 (count : ℤ)).toNat = count := by omega
  simp only [awaitUserSteeringAfter, hcount, InputQueueState.view, ← map_drop, List.any_map]
  rfl

end HaskellAgent
