import HaskellAgent.TUI.Mailbox

/-!
# The budget of the mailbox

The mailbox records how many events are queued and what they weigh together.  Weights are added up
to the greatest machine integer only; the limits are far below it.
-/

open List Machine

namespace HaskellAgent

namespace TUI

variable {π : Type} {bytes : EventBytes π} {pending taken rest : List (PendingAppEvent π)}
  {event : AppEvent π} {state state' : AppEventMailboxState π} {recorded total weight : ℕ}

/-! ### Recorded weights -/

/-- What the queued events weigh together. -/
def EventBytes.totalBytes (bytes : EventBytes π) (pending : List (PendingAppEvent π)) : ℕ :=
  (pending.map bytes.pendingAppEventLogicalBytes).sum

/-- The recorded number is the total, up to saturation. -/
def Recorded (recorded total : ℕ) : Prop :=
  recorded ≤ total ∧ (recorded < maxBound → recorded = total)

theorem Recorded.add (h : Recorded recorded total) (weight : ℕ) :
    Recorded (saturatingAdd recorded weight) (total + weight) := by
  obtain ⟨hle, heq⟩ := h
  unfold Recorded saturatingAdd
  split_ifs <;> omega

theorem recorded_foldl {α : Type} (weight : α → ℕ) (l : List α) (h : Recorded recorded total) :
    Recorded (l.foldl (fun total a => saturatingAdd total (weight a)) recorded)
      (total + (l.map weight).sum) := by
  induction l generalizing recorded total with
  | nil => exact h
  | cons a l ih =>
    rw [foldl_cons, map_cons, sum_cons, ← Nat.add_assoc]
    exact ih (h.add (weight a))

/-- A delta is merged into a group of the queue: below saturation both grow by the same. -/
theorem Recorded.merge {chunk : ℕ} (h : Recorded recorded (total + weight))
    (hroom : saturatingAdd recorded chunk < maxBound) :
    Recorded (saturatingAdd recorded chunk) (total + saturatingAdd weight chunk) := by
  obtain ⟨hle, heq⟩ := h
  unfold Recorded saturatingAdd at *
  split_ifs at * <;> omega

theorem saturatingAdd_zero_left (weight : ℕ) : saturatingAdd 0 weight = weight := by
  unfold saturatingAdd
  split_ifs <;> omega

theorem totalBytes_append (bytes : EventBytes π) (l m : List (PendingAppEvent π)) :
    bytes.totalBytes (l ++ m) = bytes.totalBytes l + bytes.totalBytes m := by
  simp [EventBytes.totalBytes]

theorem totalBytes_singleton (bytes : EventBytes π) (event : PendingAppEvent π) :
    bytes.totalBytes [event] = bytes.pendingAppEventLogicalBytes event := by
  simp [EventBytes.totalBytes]

/-! ### Enqueueing -/

theorem recorded_concat {queued : PendingAppEvent π}
    (h : Recorded recorded (bytes.totalBytes pending))
    (hqueued : bytes.pendingAppEventLogicalBytes queued = weight) :
    Recorded (saturatingAdd recorded weight) (bytes.totalBytes (pending ++ [queued])) := by
  rw [totalBytes_append, totalBytes_singleton, hqueued]
  exact h.add weight

theorem recorded_merged {last merged : PendingAppEvent π} {chunk : ℕ}
    (h : Recorded recorded (bytes.totalBytes pending)) (hlast : pending.getLast? = some last)
    (hmerged : bytes.pendingAppEventLogicalBytes merged =
      saturatingAdd (bytes.pendingAppEventLogicalBytes last) chunk)
    (hroom : pending = [] ∨ saturatingAdd recorded chunk < maxBound) :
    Recorded (saturatingAdd recorded chunk) (bytes.totalBytes (pending.dropLast ++ [merged])) := by
  obtain ⟨front, rfl⟩ := getLast?_eq_some_iff.mp hlast
  rw [totalBytes_append, totalBytes_singleton] at h
  rw [dropLast_concat, totalBytes_append, totalBytes_singleton, hmerged]
  exact h.merge (hroom.resolve_left (by simp))

theorem recorded_append (h : Recorded recorded (bytes.totalBytes pending))
    (hroom : pending = [] ∨ (appEventCoalesceKey event).isSome = true ∨
      (appendAppEventAccounted bytes event pending recorded).2 < maxBound) :
    Recorded (appendAppEventAccounted bytes event pending recorded).2
      (bytes.totalBytes (appendAppEvent event pending)) := by
  unfold appendAppEventAccounted at hroom ⊢
  dsimp only at hroom ⊢
  split
  case h_4 =>
    have hnil : Recorded 0 0 := ⟨le_rfl, fun _ => rfl⟩
    have hall := recorded_foldl bytes.pendingAppEventLogicalBytes (appendAppEvent event pending) hnil
    rwa [Nat.zero_add] at hall
  all_goals
    unfold appendAppEvent
    dsimp only
    split
    · refine recorded_merged h ‹_› (by simp [EventBytes.pendingAppEventLogicalBytes]) ?_
      exact hroom.imp_right fun hroom => hroom.resolve_left nofun
    · exact recorded_concat h (saturatingAdd_zero_left _)

theorem length_appendAppEvent_nil (event : AppEvent π) : (appendAppEvent event []).length = 1 := by
  have hlatest : ∀ queued : PendingAppEvent π, (appendLatestPendingEvent queued []).length = 1 := by
    intro queued
    unfold appendLatestPendingEvent
    split <;> rfl
  unfold appendAppEvent
  split
  · rfl
  · rfl
  · rfl
  · exact hlatest _
  · exact hlatest _

/-! ### Runs -/

def countLimit (control : Bool) : ℕ :=
  appEventMailboxCapacity + if control then appEventMailboxControlReserve else 0

def byteLimit (control : Bool) : ℕ :=
  appEventMailboxPayloadBudgetBytes + if control then appEventMailboxControlReserveBytes else 0

/-- The queue is within the limits, but for a single event that alone exceeds them. -/
def EventBytes.Within (bytes : EventBytes π) (control : Bool)
    (pending : List (PendingAppEvent π)) : Prop :=
  pending.length ≤ countLimit control ∧
    (pending.length ≤ 1 ∨ bytes.totalBytes pending ≤ byteLimit control)

structure MailboxAccounts (bytes : EventBytes π) (state : AppEventMailboxState π) : Prop where
  opened : state.mailboxClosed = false
  count : state.mailboxPendingCount = state.mailboxPendingEvents.length
  recorded : Recorded state.mailboxPendingBytes (bytes.totalBytes state.mailboxPendingEvents)
  within : bytes.Within true state.mailboxPendingEvents

theorem MailboxAccounts.enqueue (h : MailboxAccounts bytes state)
    (henqueue : enqueueMailboxEvent bytes event state = some state') :
    MailboxAccounts bytes state' ∧
      bytes.Within (isControlAppEvent event) state'.mailboxPendingEvents := by
  unfold enqueueMailboxEvent at henqueue
  rw [if_neg (by rw [h.opened]; exact Bool.false_ne_true)] at henqueue
  obtain ⟨⟨hcount, hroom⟩, heq⟩ := Option.ite_none_right_eq_some.mp henqueue
  cases heq
  have hlimit : ∀ control, byteLimit control < maxBound := by decide
  have hadmitted : state.mailboxPendingEvents = [] ∨ (appEventCoalesceKey event).isSome = true ∨
      (appendAppEventAccounted bytes event state.mailboxPendingEvents
        state.mailboxPendingBytes).2 < maxBound := by
    rcases hroom with hle | hsingle | hkeyed
    · exact .inr (.inr (hle.trans_lt (hlimit _)))
    · exact .inl (isEmpty_iff.mp (Bool.and_eq_true_iff.mp hsingle).1)
    · exact .inr (.inl (Bool.and_eq_true_iff.mp hkeyed).2)
  have hrecorded := recorded_append h.recorded hadmitted
  have hwithin : bytes.Within (isControlAppEvent event)
      (appendAppEvent event state.mailboxPendingEvents) := by
    refine ⟨hcount, ?_⟩
    rcases hroom with hle | hsingle | hkeyed
    · have hexact := hrecorded.2 (hle.trans_lt (hlimit _))
      exact .inr (hexact ▸ hle)
    · exact .inl (beq_iff_eq.mp (Bool.and_eq_true_iff.mp hsingle).2).le
    · have hone := (Bool.and_eq_true_iff.mp (Bool.and_eq_true_iff.mp hkeyed).1).2
      exact .inl (beq_iff_eq.mp hone).le
  have hcountLimit : ∀ control, countLimit control ≤ countLimit true := by decide
  have hbyteLimit : ∀ control, byteLimit control ≤ byteLimit true := by decide
  exact ⟨⟨h.opened, rfl, hrecorded, hwithin.1.trans (hcountLimit _),
    hwithin.2.imp_right fun hle => hle.trans (hbyteLimit _)⟩, hwithin⟩

/-- The first events are taken. -/
theorem MailboxAccounts.take (h : MailboxAccounts bytes state)
    (hsplit : state.mailboxPendingEvents = taken ++ rest) :
    MailboxAccounts bytes { state with
      mailboxPendingEvents := rest
      mailboxPendingCount := state.mailboxPendingCount - taken.length
      mailboxPendingBytes := state.mailboxPendingBytes - bytes.totalBytes taken } := by
  obtain ⟨hopened, hcount, ⟨hle, heq⟩, hlength, hwithin⟩ := h
  simp only [hsplit, length_append, totalBytes_append] at hcount hle heq hlength hwithin
  have hlimit : byteLimit true < maxBound := by decide
  refine ⟨hopened, ?_, ?_, ?_, ?_⟩
  · dsimp only
    omega
  · rcases hwithin with hone | hbytes
    · have hnil : bytes.totalBytes taken = 0 ∨ bytes.totalBytes rest = 0 := by
        rcases taken with _ | ⟨first, others⟩
        · exact .inl rfl
        · obtain rfl := eq_nil_of_length_eq_zero (l := rest) (by rw [length_cons] at hone; omega)
          exact .inr rfl
      unfold Recorded
      dsimp only
      omega
    · unfold Recorded
      dsimp only
      omega
  · dsimp only
    omega
  · exact hwithin.imp (by dsimp only; omega) (by dsimp only; omega)

theorem mailboxAccounts_step {w w' : MailboxWorld π} {e : MailboxEvent π}
    (h : MailboxAccounts bytes w.mailbox) (hstep : w.step bytes e = some w') :
    MailboxAccounts bytes w'.mailbox := by
  cases e with
  | enqueue event =>
    obtain ⟨mailbox, hmailbox, heq⟩ := Option.bind_eq_some_iff.mp hstep
    cases heq
    exact (h.enqueue hmailbox).1
  | take =>
    obtain ⟨taken, htaken, heq⟩ := Option.bind_eq_some_iff.mp hstep
    cases heq
    unfold takePendingAppEvent at htaken
    split at htaken
    · cases htaken
    · next event rest hpending =>
      cases htaken
      have hnext := h.take (show _ = [event] ++ rest from hpending)
      rwa [totalBytes_singleton] at hnext
  | takeUi limit =>
    cases hstep
    have hnext := h.take (uiEventPrefix_append limit w.mailbox.mailboxPendingEvents).symm
    rw [length_map] at hnext
    simpa [EventBytes.totalBytes, Function.comp_def, takePendingUiEventPrefix] using hnext

/-- **The recorded numbers are those of the queue; an empty mailbox admits every event; and the
limits of an event that was admitted are met, unless it is alone in the queue.** -/
theorem mailbox_accounts (bytes : EventBytes π) {w : MailboxWorld π}
    (h : Reachable (MailboxWorld.step bytes) .init w) :
    w.mailbox.mailboxPendingCount = w.mailbox.mailboxPendingEvents.length ∧
    (bytes.totalBytes w.mailbox.mailboxPendingEvents < maxBound →
      w.mailbox.mailboxPendingBytes = bytes.totalBytes w.mailbox.mailboxPendingEvents) ∧
    (w.mailbox.mailboxPendingEvents = [] →
      ∀ event, (enqueueMailboxEvent bytes event w.mailbox).isSome = true) ∧
    bytes.Within true w.mailbox.mailboxPendingEvents ∧
    ∀ event state', enqueueMailboxEvent bytes event w.mailbox = some state' →
      bytes.Within (isControlAppEvent event) state'.mailboxPendingEvents := by
  have hinit : MailboxAccounts bytes MailboxWorld.init.mailbox :=
    ⟨rfl, rfl, ⟨le_rfl, fun _ => rfl⟩, Nat.zero_le _, .inl (Nat.zero_le _)⟩
  have hI : MailboxAccounts bytes w.mailbox :=
    ReachableBy.invariant (I := fun w => MailboxAccounts bytes w.mailbox) h hinit
      fun _ _ _ hI _ hstep => mailboxAccounts_step hI hstep
  refine ⟨hI.count, fun hlt => hI.recorded.2 (hI.recorded.1.trans_lt hlt), fun hempty event => ?_,
    hI.within, fun event state' henqueue => (hI.enqueue henqueue).2⟩
  have hone := length_appendAppEvent_nil event
  have hcount : 1 ≤ countLimit (isControlAppEvent event) := Nat.le_add_right_of_le (by decide)
  unfold enqueueMailboxEvent
  rw [if_neg (by rw [hI.opened]; exact Bool.false_ne_true)]
  simp only [appendAppEventAccounted, hempty, hone]
  rw [if_pos ⟨hcount, .inr (.inl rfl)⟩]
  rfl

theorem mailbox_accounts_in_mailboxRun :
    ∃ w : MailboxWorld Unit, Reachable (MailboxWorld.step ⟨fun _ => 0, fun _ => 7⟩) .init w ∧
      w.mailbox.mailboxPendingBytes = 143 ∧
      w.mailbox.mailboxPendingCount = w.mailbox.mailboxPendingEvents.length := by
  have hrun : (Machine.run (MailboxWorld.step ⟨fun _ => 0, fun _ => 7⟩) .init
      (mailboxRun.take 6)).any (fun w => decide (w.mailbox.mailboxPendingBytes = 143)) = true := by
    decide +kernel
  obtain ⟨w, hw, htest⟩ := exists_reachable_of_run hrun
  exact ⟨w, hw, of_decide_eq_true htest, (mailbox_accounts _ hw).1⟩

end TUI

end HaskellAgent
