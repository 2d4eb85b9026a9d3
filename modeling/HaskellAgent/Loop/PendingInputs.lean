import HaskellAgent.Loop.QueueAccounts

/-!
# Pending submission batches

Messages and notices for the root agent wait in a `PendingInputs` queue and are submitted in
batches.  A batch is *leased*: it leaves the queue but stays in the retained budget until the
submission succeeds and commits it, or fails and puts it back.  Enqueues and resets interleave with
a leased batch; a reset starts a new epoch and so invalidates it.
-/

open List Option Machine

namespace HaskellAgent

variable {ι : Type*}

/-! ### The transitions -/

/-- A drained batch: its epoch, its entries, and the budget it still occupies. -/
structure PendingBatch (ι : Type*) where
  batchEpoch : ℕ
  batchEntries : List (InputEntry ι)
  batchCount : ℤ
  batchBytes : ℤ

def pendingQueueFullMessage : Text :=
  "Root input queue is full; wait for the root agent to consume pending messages.".toList

def noticesOmittedMessage : Text :=
  "Root input queue is full; one or more background notices were omitted.".toList

def inputEntry (bytes : ι → ℕ) (kind : Option PendingNoticeKind) (input : ι) : InputEntry ι where
  entryInput := input
  entryBytes := bytes input
  entryNoticeKind := kind
  entryBackgroundKey := none
  entryWake := true

/-- `enqueueInput`: accept a message if the budget allows it. -/
def enqueueInput (bytes : ι → ℕ) (input : ι) (state : InputQueueState ι) :
    InputQueueState ι × Except Text Unit :=
  match appendEntries [inputEntry bytes none input] state with
  | none => (state, .error pendingQueueFullMessage)
  | some next => (next, .ok ())

/-- The notices of a kind. -/
def hasKind (kind : PendingNoticeKind) (entry : InputEntry ι) : Bool :=
  entry.entryNoticeKind == some kind

def removeNotice (kind : PendingNoticeKind) (state : InputQueueState ι) : InputQueueState ι :=
  let removed := state.queueEntries.filter (hasKind kind)
  let kept := state.queueEntries.filter (fun entry => !hasKind kind entry)
  { state with
    queueEntries := kept
    queueRetainedCount := state.queueRetainedCount - removed.length
    queueRetainedBytes := max 0 (state.queueRetainedBytes - entryBytesTotal removed) }

/-- The queue with a notice admitted: an MCP snapshot replaces the queued one. -/
def admitNotice (bytes : ι → ℕ) (kind : PendingNoticeKind) (input : ι)
    (state : InputQueueState ι) : Option (InputQueueState ι) :=
  appendEntries [inputEntry bytes (some kind) input]
    (if kind = .mcp then removeNotice kind state else state)

/-- `enqueueNotice`: a rejected notice leaves the queue as it is and is reported once. -/
def enqueueNotice (bytes : ι → ℕ) (kind : PendingNoticeKind) (input : ι)
    (state : InputQueueState ι) : InputQueueState ι × Except Text Unit :=
  match admitNotice bytes kind input state with
  | some next => (next, .ok ())
  | none =>
      ({ state with queueOmissionReported := true },
        if state.queueOmissionReported then .ok () else .error noticesOmittedMessage)

def drain (state : InputQueueState ι) : InputQueueState ι × PendingBatch ι :=
  ({ state with queueEntries := [], queueOmissionReported := false },
    { batchEpoch := state.queueEpoch
      batchEntries := state.queueEntries
      batchCount := state.queueEntries.length
      batchBytes := entryBytesTotal state.queueEntries })

/-- Put a failed batch back in front, without its snapshot if a newer one is queued. -/
def requeue (batch : PendingBatch ι) (state : InputQueueState ι) : InputQueueState ι :=
  if state.queueEpoch ≠ batch.batchEpoch then state
  else
    -- a newer snapshot was accepted meanwhile, so the batch returns without its own
    let (kept, removedCount, removedBytes) :=
      if state.queueEntries.any (hasKind .mcp) then
        let removed := batch.batchEntries.filter (hasKind .mcp)
        (batch.batchEntries.filter (fun entry => !hasKind .mcp entry), (removed.length : ℤ),
          entryBytesTotal removed)
      else (batch.batchEntries, 0, 0)
    { state with
      queueEntries := kept ++ state.queueEntries
      queueRetainedCount := max 0 (state.queueRetainedCount - removedCount)
      queueRetainedBytes := max 0 (state.queueRetainedBytes - removedBytes) }

/-- Release the budget of a submitted batch. -/
def commit (batch : PendingBatch ι) (state : InputQueueState ι) : InputQueueState ι :=
  if state.queueEpoch ≠ batch.batchEpoch then state
  else promoteDeferredCompletions
    { state with
      queueRetainedCount := max 0 (state.queueRetainedCount - batch.batchCount)
      queueRetainedBytes := max 0 (state.queueRetainedBytes - batch.batchBytes) }

def batchInputs (batch : PendingBatch ι) : List ι := batch.batchEntries.map (·.entryInput)

/-- The first transaction of `withPendingInputBatch`, which waits while a batch is active. -/
def acquireBatch (state : InputQueueState ι) : Option (InputQueueState ι × PendingBatch ι) :=
  if state.queueBatchActive then none
  else
    let (next, batch) := drain state
    some ({ next with queueBatchActive := true }, batch)

/-- Its last transaction: only a submission that returned a result commits. -/
def releaseBatch (batch : PendingBatch ι) (succeeded : Bool) (state : InputQueueState ι) :
    InputQueueState ι :=
  { (if succeeded then commit batch state else requeue batch state) with
    queueBatchActive := false }

/-! ### The accounts -/

section Accounts

variable {state : InputQueueState ι} {leased : List (InputEntry ι)} {batch : PendingBatch ι}

/-- Sorting entries by a test keeps their number and their bytes. -/
theorem entryByteSum_filter_add (p : InputEntry ι → Bool) (entries : List (InputEntry ι)) :
    entryByteSum (entries.filter p) + entryByteSum (entries.filter fun entry => !p entry)
      = entryByteSum entries := by
  have hperm := (filter_append_perm p entries).map (·.entryBytes)
  rw [← entryByteSum_append]
  exact hperm.sum_nat

theorem promoteDeferredCompletions_of_nil (h : state.queueDeferredCompletions = []) :
    promoteDeferredCompletions state = state := by
  rw [promoteDeferredCompletions, h, promoteLoop, ← h]

theorem InputQueueState.Accounts.removeNotice (h : state.Accounts leased)
    (kind : PendingNoticeKind) : (removeNotice kind state).Accounts leased := by
  have hlen := length_eq_length_filter_add (l := state.queueEntries) (hasKind kind)
  have hsum := entryByteSum_filter_add (hasKind kind) state.queueEntries
  have htotal := h.total_eq (filter_sublist (p := hasKind kind))
  have hcount := h.count
  have hbytes := h.bytes
  -- counters and entries lose the same notices, so the clamp at zero has no effect
  refine h.keep filter_sublist ?_ ?_ ⟨rfl, rfl⟩
  · simp only [HaskellAgent.removeNotice]
    omega
  · simp only [HaskellAgent.removeNotice, htotal]
    omega

/-- A drained batch keeps its budget. -/
theorem InputQueueState.Accounts.drain (h : state.Accounts []) :
    (drain state).1.Accounts (drain state).2.batchEntries where
  count := by simpa [HaskellAgent.drain] using h.count
  bytes := by simpa [HaskellAgent.drain] using h.bytes
  count_le := h.count_le
  bytes_le := h.bytes_le
  limit := h.limit

/-- The total of a leased batch is exact. -/
theorem InputQueueState.Accounts.leased_total_eq (h : state.Accounts leased)
    {entries : List (InputEntry ι)} (hsub : entries.Sublist leased) :
    entryBytesTotal entries = entryByteSum entries := by
  have hsum := entryByteSum_le_of_sublist hsub
  have hbytes := h.bytes
  have hle := h.bytes_le
  have hlimit := h.limit
  exact entryBytesTotal_eq (by omega)

theorem commit_frame (batch : PendingBatch ι) (hdeferred : state.queueDeferredCompletions = []) :
    (commit batch state).queueCountLimit = state.queueCountLimit ∧
      (commit batch state).queueByteLimit = state.queueByteLimit ∧
      (commit batch state).queueDeferredCompletions
        = state.queueDeferredCompletions := by
  unfold commit
  split
  · exact ⟨rfl, rfl, rfl⟩
  · rw [promoteDeferredCompletions_of_nil (by exact hdeferred)]
    exact ⟨rfl, rfl, rfl⟩

theorem requeue_frame (batch : PendingBatch ι) (state : InputQueueState ι) :
    (requeue batch state).queueCountLimit = state.queueCountLimit ∧
      (requeue batch state).queueByteLimit = state.queueByteLimit ∧
      (requeue batch state).queueDeferredCompletions
        = state.queueDeferredCompletions := by
  unfold requeue
  split
  · exact ⟨rfl, rfl, rfl⟩
  · exact ⟨rfl, rfl, rfl⟩

/-- **A commit gives back the budget of the batch.** -/
theorem InputQueueState.Accounts.commit (h : state.Accounts batch.batchEntries)
    (hepoch : batch.batchEpoch = state.queueEpoch) (hdeferred : state.queueDeferredCompletions = [])
    (hcount : batch.batchCount = batch.batchEntries.length)
    (hbytes : batch.batchBytes = entryBytesTotal batch.batchEntries) :
    (commit batch state).Accounts [] ∧ (commit batch state).queueEntries = state.queueEntries := by
  have hc := h.count
  have hb := h.bytes
  have hcle := h.count_le
  have hble := h.bytes_le
  have htotal := h.leased_total_eq (List.Sublist.refl _)
  rw [HaskellAgent.commit, if_neg (not_not.mpr hepoch.symm),
    promoteDeferredCompletions_of_nil (by exact hdeferred), hcount, hbytes, htotal]
  refine ⟨⟨?_, ?_, ?_, ?_, h.limit⟩, rfl⟩
  · simp only [length_nil]
    omega
  · simp only [entryByteSum_nil]
    omega
  · simp only
    omega
  · simp only
    omega

/-- **A failed batch returns with the budget of what it still holds.** -/
theorem InputQueueState.Accounts.requeue (h : state.Accounts batch.batchEntries)
    (hepoch : batch.batchEpoch = state.queueEpoch) :
    (requeue batch state).Accounts [] ∧
      (requeue batch state).queueEntries
        = (if state.queueEntries.any (hasKind .mcp) then
            batch.batchEntries.filter (fun entry => !hasKind .mcp entry)
          else batch.batchEntries) ++ state.queueEntries := by
  have hlen := length_eq_length_filter_add (l := batch.batchEntries) (hasKind .mcp)
  have hsum := entryByteSum_filter_add (hasKind .mcp) batch.batchEntries
  have htotal := h.leased_total_eq (filter_sublist (p := hasKind .mcp))
  have hc := h.count
  have hb := h.bytes
  have hcle := h.count_le
  have hble := h.bytes_le
  rw [HaskellAgent.requeue, if_neg (not_not.mpr hepoch.symm)]
  -- without a newer snapshot nothing is removed; with one, exactly the old snapshots
  by_cases hany : state.queueEntries.any (hasKind .mcp)
  · simp only [hany, if_true, htotal]
    refine ⟨⟨?_, ?_, ?_, ?_, h.limit⟩, trivial⟩
    · simp only [length_append, length_nil]
      omega
    · simp only [entryByteSum_append, entryByteSum_nil]
      omega
    · simp only
      omega
    · simp only
      omega
  · simp only [hany, Bool.false_eq_true, if_false]
    refine ⟨⟨?_, ?_, ?_, ?_, h.limit⟩, trivial⟩
    · simp only [length_append, length_nil]
      omega
    · simp only [entryByteSum_append, entryByteSum_nil]
      omega
    · simp only
      omega
    · simp only
      omega

end Accounts

/-! ### Runs -/

/-- A batch leased by a running submission. -/
structure Lease where
  batch : PendingBatch TurnInput
  /-- The queue was reset since. -/
  cleared : Bool

/-- The queue, the running submissions, and what happened since the last reset. -/
structure PendingWorld where
  queue : InputQueueState TurnInput
  leases : List Lease
  /-- The plain inputs accepted, in order. -/
  accepted : List TurnInput
  /-- The plain inputs of the submissions that succeeded, in order. -/
  committed : List TurnInput
  /-- The MCP notice accepted last. -/
  notice : Option TurnInput

def PendingWorld.initial : PendingWorld where
  queue := emptyPendingState
  leases := []
  accepted := []
  committed := []
  notice := none

/-- The plain inputs among entries. -/
def plainInputs (entries : List (InputEntry ι)) : List ι :=
  (entries.filter (fun entry => entry.entryNoticeKind == none)).map (·.entryInput)

/-- The MCP notices among entries. -/
def mcpNotices (entries : List (InputEntry ι)) : List ι :=
  (entries.filter (hasKind .mcp)).map (·.entryInput)

inductive PendingEvent
  | enqueueInput (input : TurnInput)
  | enqueueNotice (kind : PendingNoticeKind) (input : TurnInput)
  | clear
  | acquire
  /-- The submission of a lease ends. -/
  | release (index : ℕ) (succeeded : Bool)
  deriving DecidableEq, Repr

/-- The moves of the callers of the queue. -/
@[grind =] def PendingWorld.step (w : PendingWorld) : PendingEvent → Option PendingWorld
  | .enqueueInput input =>
      match HaskellAgent.enqueueInput logicalTurnInputBytes input w.queue with
      | (queue, .ok ()) => some { w with queue, accepted := w.accepted ++ [input] }
      | (queue, .error _) => some { w with queue }
  | .enqueueNotice kind input =>
      some { w with
        queue := (HaskellAgent.enqueueNotice logicalTurnInputBytes kind input w.queue).1
        notice :=
          if kind = .mcp ∧ (admitNotice logicalTurnInputBytes kind input w.queue).isSome then
            some input
          else w.notice }
  | .clear =>
      some
        { queue := clearPendingState w.queue
          leases := w.leases.map fun lease => { lease with cleared := true }
          accepted := []
          committed := []
          notice := none }
  | .acquire =>
      (acquireBatch w.queue).map fun (queue, batch) =>
        { w with queue, leases := w.leases ++ [{ batch, cleared := false }] }
  | .release index succeeded =>
      w.leases[index]?.map fun lease =>
        { w with
          queue := releaseBatch lease.batch succeeded w.queue
          leases := w.leases.eraseIdx index
          committed :=
            if succeeded ∧ ¬ lease.cleared then
              w.committed ++ plainInputs lease.batch.batchEntries
            else w.committed }

/-- The entries leased since the last reset. -/
def PendingWorld.current (w : PendingWorld) : List (InputEntry TurnInput) :=
  w.leases.flatMap fun lease => if lease.cleared then [] else lease.batch.batchEntries

/-! ### The invariant -/

/-- What every move of the callers keeps. -/
structure PendingInvariant (w : PendingWorld) : Prop where
  countLimit : w.queue.queueCountLimit = pendingInputCountLimit
  byteLimit : w.queue.queueByteLimit = pendingInputByteLimit
  deferred : w.queue.queueDeferredCompletions = []
  /-- At most one submission runs. -/
  serialized : w.leases.length = if w.queue.queueBatchActive then 1 else 0
  measured : ∀ lease ∈ w.leases, lease.batch.batchCount = lease.batch.batchEntries.length ∧
    lease.batch.batchBytes = entryBytesTotal lease.batch.batchEntries
  /-- The epoch tells whether the queue was reset since. -/
  epochs : ∀ lease ∈ w.leases, if lease.cleared then lease.batch.batchEpoch < w.queue.queueEpoch
    else lease.batch.batchEpoch = w.queue.queueEpoch
  accounts : w.queue.Accounts w.current
  /-- What was accepted is committed, leased or queued, in this order. -/
  accepted : w.accepted
    = w.committed ++ (plainInputs w.current ++ plainInputs w.queue.queueEntries)
  queued : (mcpNotices w.queue.queueEntries).Sublist w.notice.toList
  /-- A leased snapshot without a newer one in the queue is still the latest. -/
  leased : mcpNotices w.queue.queueEntries = [] → (mcpNotices w.current).Sublist w.notice.toList

section Entries

variable (entries more : List (InputEntry ι))

@[simp] theorem plainInputs_append :
    plainInputs (entries ++ more) = plainInputs entries ++ plainInputs more := by
  simp [plainInputs]

@[simp] theorem mcpNotices_append :
    mcpNotices (entries ++ more) = mcpNotices entries ++ mcpNotices more := by
  simp [mcpNotices]

@[simp] theorem plainInputs_inputEntry (bytes : ι → ℕ) (kind : Option PendingNoticeKind)
    (input : ι) :
    plainInputs [inputEntry bytes kind input] = if kind = none then [input] else [] := by
  cases kind <;> simp [plainInputs, inputEntry]

@[simp] theorem mcpNotices_inputEntry (bytes : ι → ℕ) (kind : Option PendingNoticeKind)
    (input : ι) :
    mcpNotices [inputEntry bytes kind input] = if kind = some .mcp then [input] else [] := by
  by_cases hkind : kind = some .mcp
  · simp [mcpNotices, inputEntry, hasKind, hkind]
  · simp [mcpNotices, inputEntry, hasKind, hkind]

/-- Removing snapshots removes no plain input. -/
@[simp] theorem plainInputs_removeMcp :
    plainInputs (entries.filter fun entry => !hasKind .mcp entry) = plainInputs entries := by
  simp only [plainInputs, List.filter_filter]
  congr 1
  refine filter_congr fun entry _ => ?_
  cases hk : entry.entryNoticeKind with
  | none => simp [hasKind, hk]
  | some kind => simp

@[simp] theorem mcpNotices_removeMcp :
    mcpNotices (entries.filter fun entry => !hasKind .mcp entry) = [] := by
  simp [mcpNotices, List.filter_filter]

theorem mcpNotices_eq_nil_iff :
    mcpNotices entries = [] ↔ entries.any (hasKind .mcp) = false := by
  simp [mcpNotices]

end Entries

namespace PendingInvariant

variable {w w' : PendingWorld}

theorem initial : PendingInvariant PendingWorld.initial where
  countLimit := rfl
  byteLimit := rfl
  deferred := rfl
  serialized := rfl
  measured := by intro lease h; cases h
  epochs := by intro lease h; cases h
  accounts := by exact ⟨rfl, rfl, by decide, by decide, by decide⟩
  accepted := rfl
  queued := List.Sublist.slnil
  leased := fun _ => List.Sublist.slnil

section

variable (h : PendingInvariant w)
include h

/-- A change of the queued entries alone. -/
theorem of_enqueue {queue : InputQueueState TurnInput}
    {accepted : List TurnInput} {notice : Option TurnInput}
    (hlimits : queue.queueCountLimit = w.queue.queueCountLimit ∧
      queue.queueByteLimit = w.queue.queueByteLimit)
    (hdeferred : queue.queueDeferredCompletions = w.queue.queueDeferredCompletions)
    (hepoch : queue.queueEpoch = w.queue.queueEpoch)
    (hactive : queue.queueBatchActive = w.queue.queueBatchActive)
    (haccounts : queue.Accounts w.current)
    (haccepted : accepted
      = w.committed ++ (plainInputs w.current ++ plainInputs queue.queueEntries))
    (hqueued : (mcpNotices queue.queueEntries).Sublist notice.toList)
    (hleased : mcpNotices queue.queueEntries = [] →
      (mcpNotices w.current).Sublist notice.toList) :
    PendingInvariant { w with queue, accepted, notice } where
  countLimit := hlimits.1.trans h.countLimit
  byteLimit := hlimits.2.trans h.byteLimit
  deferred := hdeferred.trans h.deferred
  serialized := by simpa only [hactive] using h.serialized
  measured := h.measured
  epochs := by simpa only [hepoch] using h.epochs
  accounts := haccounts
  accepted := haccepted
  queued := hqueued
  leased := hleased

theorem enqueueInput (input : TurnInput)
    (hst : w.step (.enqueueInput input) = some w') : PendingInvariant w' := by
  simp only [PendingWorld.step, HaskellAgent.enqueueInput, appendEntries_eq h.accounts] at hst
  by_cases hfits : w.queue.Fits [inputEntry logicalTurnInputBytes none input]
  · simp only [if_pos hfits, some.injEq] at hst
    subst hst
    refine h.of_enqueue ⟨rfl, rfl⟩ rfl rfl rfl (h.accounts.of_admission hfits) ?_ ?_ ?_
    · simp [admitEntries, h.accepted]
    · simpa [admitEntries] using h.queued
    · simpa [admitEntries] using h.leased
  · simp only [if_neg hfits, some.injEq] at hst
    subst hst
    exact h

/-- A subagent notice is queued behind the others. -/
theorem enqueueSubagentNotice (input : TurnInput)
    (hst : w.step (.enqueueNotice .subagent input) = some w') : PendingInvariant w' := by
  simp only [PendingWorld.step, HaskellAgent.enqueueNotice, admitNotice, reduceCtorEq, false_and,
    if_false, appendEntries_eq h.accounts, some.injEq] at hst
  subst hst
  by_cases hfits : w.queue.Fits [inputEntry logicalTurnInputBytes (some .subagent) input]
  · simp only [if_pos hfits]
    refine h.of_enqueue ⟨rfl, rfl⟩ rfl rfl rfl (h.accounts.of_admission hfits) ?_ ?_ ?_
    · simp [admitEntries, h.accepted]
    · simpa [admitEntries] using h.queued
    · simpa [admitEntries] using h.leased
  · simp only [if_neg hfits]
    exact h.of_enqueue ⟨rfl, rfl⟩ rfl rfl rfl (h.accounts.congr rfl rfl ⟨rfl, rfl⟩ rfl)
      h.accepted h.queued h.leased

/-- **A snapshot replaces the queued one**, or nothing changes. -/
theorem enqueueMcpNotice (input : TurnInput)
    (hst : w.step (.enqueueNotice .mcp input) = some w') : PendingInvariant w' := by
  have haccounts := h.accounts.removeNotice .mcp
  simp only [PendingWorld.step, HaskellAgent.enqueueNotice, admitNotice, if_true, true_and,
    appendEntries_eq haccounts, some.injEq] at hst
  subst hst
  -- the budget of the snapshot it replaces is free, but only if the new one fits
  by_cases hfits : (removeNotice .mcp w.queue).Fits
      [inputEntry logicalTurnInputBytes (some .mcp) input]
  · simp only [if_pos hfits, isSome_some, if_true]
    refine h.of_enqueue ⟨rfl, rfl⟩ rfl rfl rfl (haccounts.of_admission hfits) ?_ ?_ ?_
    · simp [admitEntries, removeNotice, h.accepted]
    · simp [admitEntries, removeNotice]
    · simp [admitEntries, removeNotice]
  · simp only [if_neg hfits, isSome_none, Bool.false_eq_true, if_false]
    exact h.of_enqueue ⟨rfl, rfl⟩ rfl rfl rfl (h.accounts.congr rfl rfl ⟨rfl, rfl⟩ rfl)
      h.accepted h.queued h.leased

end

/-- After a reset no lease is current. -/
theorem current_cleared (leases : List Lease) :
    (leases.map fun lease => { lease with cleared := true }).flatMap
      (fun lease => if lease.cleared then [] else lease.batch.batchEntries) = [] := by
  simp [flatMap_map]

section

variable (h : PendingInvariant w)
include h

theorem clear (hst : w.step .clear = some w') : PendingInvariant w' := by
  simp only [PendingWorld.step, some.injEq] at hst
  subst hst
  have hcurrent := current_cleared w.leases
  refine ⟨h.countLimit, h.byteLimit, rfl, ?_, ?_, ?_, ?_, ?_, ?_, ?_⟩
  · rw [length_map]
    exact h.serialized
  -- the leases keep what they measured, and their epochs fall behind
  · intro lease hmem
    obtain ⟨old, hold, rfl⟩ := List.mem_map.mp hmem
    exact h.measured old hold
  · intro lease hmem
    obtain ⟨old, hold, rfl⟩ := List.mem_map.mp hmem
    have hepoch := h.epochs old hold
    simp only [clearPendingState, if_true]
    split at hepoch
    · omega
    · omega
  · rw [PendingWorld.current, hcurrent]
    refine ⟨rfl, rfl, ?_, ?_, h.accounts.limit⟩
    · simp only [clearPendingState, h.countLimit]
      decide
    · simp only [clearPendingState, h.byteLimit]
      decide
  · rw [PendingWorld.current, hcurrent]
    rfl
  · exact List.Sublist.slnil
  · intro _
    rw [PendingWorld.current, hcurrent]
    exact List.Sublist.slnil

/-- While no submission runs, nothing is leased. -/
theorem leases_of_inactive (hactive : w.queue.queueBatchActive = false) :
    w.leases = [] := by
  have hlen := h.serialized
  rw [hactive] at hlen
  exact length_eq_zero_iff.mp hlen

theorem acquire (hst : w.step .acquire = some w') :
    PendingInvariant w' := by
  simp only [PendingWorld.step, acquireBatch] at hst
  cases hactive : w.queue.queueBatchActive with
  | true => simp [hactive] at hst
  | false =>
    have hnone := h.leases_of_inactive hactive
    have hcurrent : w.current = [] := by simp [PendingWorld.current, hnone]
    simp only [hactive, Bool.false_eq_true, if_false, map_some, some.injEq, hnone,
      nil_append] at hst
    subst hst
    have haccounts := h.accounts
    have haccepted := h.accepted
    rw [hcurrent] at haccounts haccepted
    refine ⟨h.countLimit, h.byteLimit, h.deferred, rfl, ?_, ?_, ?_, ?_, nil_sublist _, ?_⟩
    · intro lease hmem
      rw [mem_singleton] at hmem
      subst hmem
      exact ⟨rfl, rfl⟩
    · intro lease hmem
      rw [mem_singleton] at hmem
      subst hmem
      rfl
    · show InputQueueState.Accounts _ ((drain w.queue).2.batchEntries ++ [])
      rw [List.append_nil]
      exact haccounts.drain.congr rfl rfl ⟨rfl, rfl⟩ rfl
    · simpa [PendingWorld.current, drain, plainInputs] using haccepted
    · intro _
      simpa [PendingWorld.current, drain] using h.queued

/-- A lease held is the only one. -/
theorem leases_of_getElem {index : ℕ} {lease : Lease}
    (hget : w.leases[index]? = some lease) : w.leases = [lease] ∧ index = 0 := by
  have hlen := h.serialized
  obtain ⟨hlt, heq⟩ := List.getElem?_eq_some_iff.mp hget
  have hone : w.leases.length = 1 := by
    split at hlen <;> omega
  obtain ⟨only, honly⟩ := length_eq_one_iff.mp hone
  have hzero : index = 0 := by omega
  subst hzero
  simp only [honly, getElem_cons_zero] at heq
  exact ⟨heq ▸ honly, rfl⟩

/-- **A batch leased before a reset changes nothing.** -/
theorem release_cleared {lease : Lease} (hmem : lease ∈ w.leases)
    (hcleared : lease.cleared = true) :
    HaskellAgent.commit lease.batch w.queue = w.queue ∧
      HaskellAgent.requeue lease.batch w.queue = w.queue := by
  have hepoch := h.epochs lease hmem
  rw [if_pos hcleared] at hepoch
  have hne : w.queue.queueEpoch ≠ lease.batch.batchEpoch := by omega
  exact ⟨if_pos hne, if_pos hne⟩

/-- The world after the last lease ended. -/
theorem of_release {queue : InputQueueState TurnInput}
    {committed : List TurnInput}
    (hlimits : queue.queueCountLimit = w.queue.queueCountLimit ∧
      queue.queueByteLimit = w.queue.queueByteLimit)
    (hdeferred : queue.queueDeferredCompletions = w.queue.queueDeferredCompletions)
    (hactive : queue.queueBatchActive = false) (haccounts : queue.Accounts [])
    (haccepted : w.accepted = committed ++ plainInputs queue.queueEntries)
    (hqueued : (mcpNotices queue.queueEntries).Sublist w.notice.toList) :
    PendingInvariant { w with queue, leases := [], committed } where
  countLimit := hlimits.1.trans h.countLimit
  byteLimit := hlimits.2.trans h.byteLimit
  deferred := hdeferred.trans h.deferred
  serialized := by rw [hactive]; rfl
  measured := by intro lease hmem; cases hmem
  epochs := by intro lease hmem; cases hmem
  accounts := haccounts
  accepted := haccepted
  queued := hqueued
  leased := fun _ => nil_sublist _

/-- The end of a submission leased since the last reset. -/
theorem release_current {lease : Lease} (hlease : w.leases = [lease])
    (hcleared : lease.cleared = false) (succeeded : Bool) :
    PendingInvariant { w with
      queue := releaseBatch lease.batch succeeded w.queue
      leases := []
      committed :=
        if succeeded then w.committed ++ plainInputs lease.batch.batchEntries
        else w.committed } := by
  have hcurrent : w.current = lease.batch.batchEntries := by
    simp [PendingWorld.current, hlease, hcleared]
  have hmem : lease ∈ w.leases := by rw [hlease]; exact mem_singleton_self lease
  have hepoch := h.epochs lease hmem
  rw [hcleared, if_neg Bool.false_ne_true] at hepoch
  have haccounts := h.accounts
  have haccepted := h.accepted
  have hleased := h.leased
  rw [hcurrent] at haccounts haccepted hleased
  cases succeeded with
  | true =>
    obtain ⟨hmeasured, hbytes⟩ := h.measured lease hmem
    obtain ⟨hdone, hentries⟩ := haccounts.commit hepoch h.deferred hmeasured hbytes
    obtain ⟨hcount, hbyte, hdef⟩ := commit_frame lease.batch h.deferred
    simp only [releaseBatch, if_true]
    refine h.of_release ⟨hcount, hbyte⟩ hdef rfl (hdone.congr rfl rfl ⟨rfl, rfl⟩ rfl) ?_ ?_
    · rw [haccepted, hentries, append_assoc]
    · rw [hentries]
      exact h.queued
  | false =>
    obtain ⟨hdone, hentries⟩ := haccounts.requeue hepoch
    obtain ⟨hcount, hbyte, hdef⟩ := requeue_frame lease.batch w.queue
    simp only [releaseBatch, Bool.false_eq_true, if_false]
    refine h.of_release ⟨hcount, hbyte⟩ hdef rfl (hdone.congr rfl rfl ⟨rfl, rfl⟩ rfl) ?_ ?_
    · rw [haccepted, hentries, plainInputs_append]
      split
      · rw [plainInputs_removeMcp]
      · rfl
    · rw [hentries, mcpNotices_append]
      split
      · rw [mcpNotices_removeMcp]
        exact h.queued
      · next hany =>
        -- no newer snapshot is queued, so the leased one is still the latest
        have hnil := (mcpNotices_eq_nil_iff w.queue.queueEntries).mpr (by simpa using hany)
        rw [hnil, List.append_nil]
        exact hleased hnil

theorem release (index : ℕ) (succeeded : Bool)
    (hst : w.step (.release index succeeded) = some w') : PendingInvariant w' := by
  simp only [PendingWorld.step, map_eq_some_iff] at hst
  obtain ⟨lease, hget, rfl⟩ := hst
  obtain ⟨hlease, rfl⟩ := h.leases_of_getElem hget
  have herase : w.leases.eraseIdx 0 = [] := by rw [hlease]; rfl
  rw [herase]
  cases hcleared : lease.cleared with
  | false => simpa using h.release_current hlease hcleared succeeded
  | true =>
    have hmem : lease ∈ w.leases := by rw [hlease]; exact mem_singleton_self lease
    obtain ⟨hcommit, hrequeue⟩ := h.release_cleared hmem hcleared
    have hcurrent : w.current = [] := by simp [PendingWorld.current, hlease, hcleared]
    have hsame : releaseBatch lease.batch succeeded w.queue
        = { w.queue with queueBatchActive := false } := by
      simp [releaseBatch, hcommit, hrequeue]
    have haccounts := h.accounts
    have haccepted := h.accepted
    rw [hcurrent] at haccounts haccepted
    simp only [hsame, not_true_eq_false, and_false, if_false]
    exact h.of_release ⟨rfl, rfl⟩ rfl rfl (haccounts.congr rfl rfl ⟨rfl, rfl⟩ rfl) haccepted
      h.queued

theorem step {e : PendingEvent} (hst : w.step e = some w') :
    PendingInvariant w' := by
  cases e with
  | enqueueInput input => exact h.enqueueInput input hst
  | enqueueNotice kind input =>
    cases kind with
    | mcp => exact h.enqueueMcpNotice input hst
    | subagent => exact h.enqueueSubagentNotice input hst
  | clear => exact h.clear hst
  | acquire => exact h.acquire hst
  | release index succeeded => exact h.release index succeeded hst

end

end PendingInvariant

/-- A batch with a snapshot fails after a newer snapshot arrived; the next one is leased and the
queue is reset under it. -/
def pendingRun : List PendingEvent :=
  [.enqueueInput (.userMessage "a".toList), .enqueueNotice .mcp (.userMessage "v1".toList),
    .acquire, .enqueueNotice .mcp (.userMessage "v2".toList),
    .enqueueInput (.userMessage "b".toList), .release 0 false, .acquire, .clear,
    .enqueueInput (.userMessage "c".toList)]

end HaskellAgent
