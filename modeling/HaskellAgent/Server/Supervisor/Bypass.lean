import HaskellAgent.Server.Supervisor.Transactions

/-!
# How often a queued turn is passed by

The dispatcher prefers the turns of another tenant than the last one, so that it may pass a turn by
for one that stands behind it.  It does so only right after a turn of the same tenant.
-/

open List

namespace HaskellAgent
namespace Server

/-- A run of enqueues and dispatches from a state, with the turns that are dispatched.  At each
dispatch the turn is eligible, as one of its tenant.  Workers may start and end in between. -/
inductive QueueRun (config : SupervisorConfig) (turnId : TurnId) (tenantId : Text) :
    SupervisorState → List TurnId → Prop
  | done {state : SupervisorState} : QueueRun config turnId tenantId state []
  | enqueue {state next : SupervisorState} {reservationHeld : Bool} {spec : TurnSpec}
      {record admitted : TurnRecord} {dispatched : List TurnId}
      (henqueue : enqueueTurnRecord config reservationHeld spec record state = .ok (admitted, next))
      (hrest : QueueRun config turnId tenantId next dispatched) :
      QueueRun config turnId tenantId state dispatched
  | unqueued {state next : SupervisorState} {dispatched : List TurnId}
      (hqueue : next.stateQueue = state.stateQueue)
      (hlast : next.stateLastScheduledTenant = state.stateLastScheduledTenant)
      (hrest : QueueRun config turnId tenantId next dispatched) :
      QueueRun config turnId tenantId state dispatched
  | dispatch {state next : SupervisorState} {picked : TurnId} {spec : TurnSpec}
      {dispatched : List TurnId} (heligible : (turnId, tenantId) ∈ eligibleTurns config state)
      (hreserve : reserveRunnable config state = .reserved picked spec next)
      (hrest : QueueRun config turnId tenantId next dispatched) :
      QueueRun config turnId tenantId state (picked :: dispatched)

variable {config : SupervisorConfig} {state : SupervisorState} {turnId picked : TurnId}
  {tenantId pickedTenant : Text} {ahead behind : List TurnId}

/-- The dispatches that may pass a turn by: two for each entry ahead, and one for a last turn of the
same tenant. -/
def bypasses (tenantId : Text) (ahead : List TurnId) (last : Option Text) : ℕ :=
  2 * ahead.length + if last = some tenantId then 1 else 0

/-- The first of some entries, where one of them is known. -/
theorem head_filter {p : TurnId × Text → Bool} {before after rest : List (TurnId × Text)}
    {entry first : TurnId × Text} (hentry : p entry = true)
    (h : (before ++ entry :: after).filter p = first :: rest) : first = entry ∨ first ∈ before := by
  rw [filter_append, filter_cons_of_pos hentry] at h
  cases hbefore : before.filter p with
  | nil =>
    rw [hbefore] at h
    exact .inl (cons.inj h).1.symm
  | cons other others =>
    rw [hbefore] at h
    obtain rfl := (cons.inj h).1
    exact .inr (mem_filter.mp (hbefore ▸ mem_cons_self)).1

/-- The eligible turns are those ahead, the turn, and those behind. -/
theorem eligibleTurns_split (heligible : (turnId, tenantId) ∈ eligibleTurns config state)
    (hqueue : state.stateQueue = ahead ++ turnId :: behind) :
    ∃ before after, eligibleTurns config state = before ++ (turnId, tenantId) :: after ∧
      ∀ entry ∈ before, entry.1 ∈ ahead := by
  obtain ⟨-, slot, hslot, htenant, hconditions⟩ := mem_eligibleTurns heligible
  refine ⟨eligibleTurns config { state with stateQueue := ahead },
    eligibleTurns config { state with stateQueue := behind }, ?_, fun entry hentry => ?_⟩
  · rw [htenant] at hconditions ⊢
    simp [eligibleTurns, hqueue, hslot, hconditions]
  · exact (mem_eligibleTurns hentry).1

/-- An eligible turn is passed by for one ahead, or right after a turn of its tenant. -/
theorem pickRunnable_passes {remaining : List TurnId}
    (heligible : (turnId, tenantId) ∈ eligibleTurns config state)
    (hqueue : state.stateQueue = ahead ++ turnId :: behind)
    (hpick : pickRunnable config state = some (picked, remaining, pickedTenant)) :
    picked = turnId ∨ picked ∈ ahead ∨
      state.stateLastScheduledTenant = some tenantId ∧ pickedTenant ≠ tenantId := by
  obtain ⟨before, after, hsplit, hbefore⟩ := eligibleTurns_split heligible hqueue
  have hfirst : ∀ {p : TurnId × Text → Bool} {rest : List (TurnId × Text)},
      p (turnId, tenantId) = true →
      (eligibleTurns config state).filter p = (picked, pickedTenant) :: rest →
        picked = turnId ∨ picked ∈ ahead := by
    intro p rest hp hhead
    rw [hsplit] at hhead
    exact (head_filter hp hhead).imp (congrArg Prod.fst) (hbefore _)
  unfold pickRunnable at hpick
  dsimp only at hpick
  split at hpick
  · cases hpick
  next first firstTenant rest hcandidates =>
  obtain ⟨rfl, -, rfl⟩ : first = picked ∧ _ ∧ firstTenant = pickedTenant := by
    simpa using hpick
  cases hpreferred : (eligibleTurns config state).filter fun entry =>
      decide (some entry.2 ≠ state.stateLastScheduledTenant) with
  | nil =>
    rw [hpreferred, nil_append, isEmpty_nil, if_pos rfl] at hcandidates
    have hall : (eligibleTurns config state).filter (fun _ => true)
        = (first, firstTenant) :: rest := by rw [filter_true, hcandidates]
    exact (hfirst rfl hall).imp_right .inl
  | cons entry others =>
    rw [hpreferred] at hcandidates
    obtain rfl := (cons.inj hcandidates).1
    by_cases hlast : state.stateLastScheduledTenant = some tenantId
    · have hother := (mem_filter.mp (hpreferred ▸ mem_cons_self)).2
      refine .inr (.inr ⟨hlast, fun htenant => ?_⟩)
      simp [hlast, htenant] at hother
    · exact (hfirst (decide_eq_true (Ne.symm hlast)) hpreferred).imp_right .inl

/-- A dispatch takes what was picked out of the queue. -/
theorem reserveRunnable_picks {spec : TurnSpec} {next : SupervisorState}
    (h : reserveRunnable config state = .reserved picked spec next) :
    ∃ remaining pickedTenant, pickRunnable config state = some (picked, remaining, pickedTenant) ∧
      next.stateQueue = state.stateQueue.filter (· ≠ picked) ∧
      next.stateLastScheduledTenant = some pickedTenant := by
  unfold reserveRunnable at h
  split at h
  · cases h
  split at h
  · cases h
  split at h
  · cases h
  next turn remaining pickedTenant hpick =>
  split at h
  · cases h
  · cases h
    exact ⟨remaining, pickedTenant, hpick, (pickRunnable_eq_some hpick).2, rfl⟩

/-- What passes a turn by is paid for. -/
theorem QueueRun.passes {dispatched : List TurnId}
    (h : QueueRun config turnId tenantId state dispatched)
    (hqueue : state.stateQueue = ahead ++ turnId :: behind) :
    dispatched.length ≤ bypasses tenantId ahead state.stateLastScheduledTenant ∨
      turnId ∈ dispatched.take
        (bypasses tenantId ahead state.stateLastScheduledTenant + 1) := by
  induction h generalizing ahead behind with
  | done => exact .inl (Nat.zero_le _)
  | enqueue henqueue hrest ih =>
    obtain ⟨-, rfl⟩ := enqueueTurnRecord_eq_ok henqueue
    exact ih (by rw [appendTurnEvent, hqueue, append_assoc, cons_append])
  | unqueued hsame hlast hrest ih =>
    rw [← hlast]
    exact ih (hsame.trans hqueue)
  | @dispatch state next picked spec dispatched heligible hreserve hrest ih =>
    obtain ⟨remaining, pickedTenant, hpick, hnext, hlast⟩ := reserveRunnable_picks hreserve
    by_cases hpicked : picked = turnId
    · exact .inr (by simp [hpicked])
    have hkept : next.stateQueue
        = ahead.filter (· ≠ picked) ++ turnId :: behind.filter (· ≠ picked) := by
      rw [hnext, hqueue, filter_append, filter_cons_of_pos (by simpa using Ne.symm hpicked)]
    have hpaid : bypasses tenantId (ahead.filter (· ≠ picked))
        next.stateLastScheduledTenant + 1
          ≤ bypasses tenantId ahead state.stateLastScheduledTenant := by
      rw [hlast, bypasses, bypasses]
      obtain hturn | hahead | ⟨hsame, hother⟩ := pickRunnable_passes heligible hqueue hpick
      · exact absurd hturn hpicked
      · have hless : (ahead.filter (· ≠ picked)).length < ahead.length :=
          length_filter_lt_length_iff_exists.mpr ⟨picked, hahead, by simp⟩
        split_ifs <;> omega
      · have hle := length_filter_le (fun id => decide (id ≠ picked)) ahead
        rw [if_pos hsame, if_neg (by simpa using hother)]
        omega
    rcases ih hkept with hlength | hmem
    · exact .inl (by rw [length_cons]; omega)
    · exact .inr (mem_cons_of_mem _ (take_subset_take_left _ hpaid hmem))

/-- In a run at whose dispatches a queued turn stays eligible it is dispatched, once there have been
two dispatches more than twice the number of the entries ahead. -/
theorem QueueRun.dispatched {dispatched : List TurnId}
    (h : QueueRun config turnId tenantId state dispatched)
    (hqueue : state.stateQueue = ahead ++ turnId :: behind)
    (hlength : 2 * ahead.length + 2 ≤ dispatched.length) :
    turnId ∈ dispatched.take (2 * ahead.length + 2) := by
  have hle : bypasses tenantId ahead state.stateLastScheduledTenant ≤ 2 * ahead.length + 1 := by
    rw [bypasses]
    split_ifs <;> omega
  rcases h.passes hqueue with hshort | hmem
  · omega
  · exact (take_subset_take_left _ (by omega)) hmem

def queuedTurnSlot (turnId : TurnId) (tenantId : Text) : TurnSlot :=
  admittedSlot ⟨[], [], [], [], [], ⟨tenantId, none⟩⟩
    ⟨turnId, [], [], ⟨tenantId, none⟩, .turnQueued, 0, none, none, none, []⟩

/-- Two turns wait, the first of the tenant that was last. -/
def twoQueuedTurns : SupervisorState := { SupervisorState.init with
  stateQueue := [1, 2]
  stateTurns := .ofList [(1, queuedTurnSlot 1 ['a']), (2, queuedTurnSlot 2 ['b'])]
  stateLastScheduledTenant := some ['a'] }

theorem QueueRun.dispatched_twoQueuedTurns :
    QueueRun ⟨9, 9, 9, 9, 9, 9, 9⟩ 1 ['a'] twoQueuedTurns [2, 1] ∧ 1 ∈ [2, 1].take 2 := by
  have hrun : QueueRun ⟨9, 9, 9, 9, 9, 9, 9⟩ 1 ['a'] twoQueuedTurns [2, 1] :=
    .dispatch (by decide) rfl (.dispatch (by decide) rfl .done)
  exact ⟨hrun, @QueueRun.dispatched _ _ _ _ [] [2] _ hrun rfl le_rfl⟩

end Server
end HaskellAgent
