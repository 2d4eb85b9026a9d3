import HaskellAgent.Lib.Machine
import HaskellAgent.Loop.InputQueue
import Mathlib.Data.List.Nodup

/-!
# The mail of a child agent

A running child receives mail twice over: the message itself enters the input queue of its loop,
and the work it belongs to enters a parallel queue, `steeringWork`, which the loop's
acknowledgements advance in step.  What the loop never acknowledged returns to the front of the
ordinary mailbox when the turn ends.

The three queues belong to one record; `Mail` is that part of it.  `MailWorld` adds what the
operations read of the rest of the registry and the history of the mail, and its steps are the
transactions of the threads involved: senders, the supervisor that opens and closes turns, the
loop that reads and acknowledges, and the background tasks that post notices.
-/

open List Option Machine

namespace HaskellAgent

abbrev RootTurnId := ℕ

/-- A piece of mail.  The tag is not part of the program: it tells works with equal contents
apart where a property needs it, and is `Unit` elsewhere. -/
structure SubagentWork (τ : Type) where
  workRootTurnId : Option RootTurnId
  workMessage : InterAgentMessage
  workTag : τ
  deriving DecidableEq

/-- The guidance a running turn accepted, beside the loop's own queue of it. -/
structure SubagentSteering (τ : Type) where
  steeringInputs : InputQueueState TurnInput
  steeringWork : List (SubagentWork τ)

/-- The queues of a record. -/
structure Mail (τ : Type) where
  recordMailbox : List (SubagentWork τ)
  recordSteering : Option (SubagentSteering τ)

namespace Mail

variable {τ : Type}

/-- `enqueueSubagentWorkSTM`: guidance for the running turn unless older mail still waits or the
loop's queue refuses it. -/
def enqueueSubagentWork (mail : Mail τ) (work : SubagentWork τ) : Mail τ :=
  match if mail.recordMailbox.isEmpty then mail.recordSteering else none with
  | none => { mail with recordMailbox := mail.recordMailbox ++ [work] }
  | some steering =>
      match enqueueSteeringInputs logicalTurnInputBytes steering.steeringInputs
          [.agentMessage work.workMessage] with
      | (.error _, _) => { mail with recordMailbox := mail.recordMailbox ++ [work] }
      | (.ok (), inputs) =>
          { mail with
            recordSteering := some
              { steeringInputs := inputs, steeringWork := steering.steeringWork ++ [work] } }

/-- The `acquire` of `withSubagentMessageSteering`: open a turn on a queue and offer it the mail
that waited; `none` when a turn is already open. -/
def acquire (inputs : InputQueueState TurnInput) (mail : Mail τ) : Option (Mail τ) :=
  match mail.recordSteering with
  | some _ => none
  | none =>
      some (mail.recordMailbox.foldl enqueueSubagentWork
        { recordMailbox := []
          recordSteering := some { steeringInputs := inputs, steeringWork := [] } })

/-- Work is retained unless its root turn was aborted. -/
def retain (aborted : List RootTurnId) (work : SubagentWork τ) : Bool :=
  work.workRootTurnId.all (fun turn => turn ∉ aborted)

/-- The work a closing turn leaves unacknowledged. -/
def unacknowledged (mail : Mail τ) : List (SubagentWork τ) :=
  (mail.recordSteering.map (·.steeringWork)).getD []

/-- The `release` of `withSubagentMessageSteering`: return unacknowledged work to the front of the
mailbox, unless the record is closed. -/
def release (closed : Bool) (aborted : List RootTurnId) (mail : Mail τ) : Mail τ where
  recordSteering := none
  recordMailbox :=
    if closed then mail.recordMailbox
    else mail.unacknowledged.filter (retain aborted) ++ mail.recordMailbox

end Mail

/-! ### Acknowledgement -/

def isAgentMessage : TurnInput → Bool
  | .agentMessage _ => true
  | _ => false

/-- The first transaction of `commitSubagentMessageSteering`: how many of the acknowledged inputs
are mail. -/
def messageCount (count : ℤ) (inputs : List TurnInput) : ℕ :=
  (inputs.take (max 0 count).toNat).countP isAgentMessage

/-- Its second transaction: remove that many works and the acknowledged inputs; `none` while there
are fewer works, where the transaction would retry. -/
def SubagentSteering.acknowledge {τ : Type} (messages : ℕ) (count : ℤ)
    (steering : SubagentSteering τ) : Option (SubagentSteering τ) :=
  if steering.steeringWork.length < messages then none
  else some
    { steeringInputs := commitSteeringInputs count steering.steeringInputs
      steeringWork := steering.steeringWork.drop messages }

/-! ### The world of one record's mail -/

/-- A record's mail with the rest of the registry its operations read, and its history. -/
structure MailWorld where
  mail : Mail ℕ
  /-- `recordPhase` is `AgentClosed`. -/
  closed : Bool
  aborted : List RootTurnId
  /-- The loop is between the two transactions of an acknowledgement: the count, and the number of
  messages the first one found. -/
  acknowledging : Option (ℕ × ℕ)
  /-- Every work ever enqueued, in that order. -/
  enqueued : List (SubagentWork ℕ)
  /-- Every work acknowledged by the loop or taken as the message of a new turn, in that order. -/
  acknowledged : List (SubagentWork ℕ)
  /-- Every work discarded. -/
  dropped : List (SubagentWork ℕ)

inductive MailEvent
  /-- Some thread posts mail. -/
  | enqueue (turn : Option RootTurnId) (message : InterAgentMessage)
  /-- The supervisor's run opens a turn, with a queue of its own. -/
  | acquire
  | release
  /-- The loop reads its steering. -/
  | reserve
  /-- The loop is about to answer. -/
  | close
  /-- A background task posts or withdraws a notice. -/
  | notice (key : Text) (text : Text)
  | dismiss (key : Text)
  /-- An idle wake is consumed. -/
  | wake
  /-- The loop acknowledges a prefix: the two transactions. -/
  | countMessages (count : ℕ)
  | acknowledge
  /-- The supervisor takes the next message between turns. -/
  | take
  /-- A root turn is aborted. -/
  | abort (turn : RootTurnId)
  /-- The record is shut down. -/
  | shutdown

namespace MailWorld

/-- A record that has no mail yet. -/
def init : MailWorld where
  mail := { recordMailbox := [], recordSteering := none }
  closed := false
  aborted := []
  acknowledging := none
  enqueued := []
  acknowledged := []
  dropped := []

/-- Change the loop's queue of the open turn. -/
def onInputs (w : MailWorld) (f : InputQueueState TurnInput → InputQueueState TurnInput) :
    Option MailWorld :=
  w.mail.recordSteering.map fun steering =>
    { w with
      mail := { w.mail with
        recordSteering := some { steering with steeringInputs := f steering.steeringInputs } } }

/-- One transaction of one of the threads. -/
def step (w : MailWorld) : MailEvent → Option MailWorld
  | .enqueue turn message =>
      let work := { workRootTurnId := turn, workMessage := message, workTag := w.enqueued.length }
      some { w with
        mail := w.mail.enqueueSubagentWork work
        enqueued := w.enqueued ++ [work] }
  | .acquire => (w.mail.acquire emptySteeringState).map fun mail => { w with mail := mail }
  | .release =>
      -- leaving the turn also abandons an acknowledgement in progress
      w.mail.recordSteering.map fun _ =>
        { w with
          mail := w.mail.release w.closed w.aborted
          acknowledging := none
          dropped := w.dropped ++ w.mail.unacknowledged.filter
            (fun work => w.closed || !Mail.retain w.aborted work) }
  | .reserve =>
      if w.acknowledging.isSome then none else w.onInputs fun q => (reserveSteeringInputs q).2
  | .close =>
      if w.acknowledging.isSome then none else w.onInputs fun q => (closeSteeringInputs q).2
  | .notice key text =>
      w.onInputs fun q =>
        (enqueueBackgroundCompletion logicalTurnInputBytes none key (.userMessage text) q).2
  | .dismiss key => w.onInputs (dismissBackgroundCompletion key)
  | .wake => w.onInputs fun q => (awaitSteeringInput q).getD q
  | .countMessages count =>
      match w.mail.recordSteering, w.acknowledging with
      | some steering, none =>
          -- the loop acknowledges prefixes of what it reserved
          if count ≤ steering.steeringInputs.queueReservedCount then
            some { w with
              acknowledging :=
                some (count, messageCount count (readSteeringInputs steering.steeringInputs)) }
          else none
      | _, _ => none
  | .acknowledge =>
      match w.mail.recordSteering, w.acknowledging with
      | some steering, some (count, messages) =>
          (steering.acknowledge messages count).map fun next =>
            { w with
              mail := { w.mail with recordSteering := some next }
              acknowledging := none
              acknowledged := w.acknowledged ++ steering.steeringWork.take messages }
      | _, _ => none
  | .take =>
      match w.mail.recordSteering, w.mail.recordMailbox with
      | none, work :: rest =>
          some { w with
            mail := { w.mail with recordMailbox := rest }
            acknowledged := w.acknowledged ++ [work] }
      | _, _ => none
  | .abort turn =>
      let stale := fun work : SubagentWork ℕ => work.workRootTurnId == some turn
      some { w with
        aborted := turn :: w.aborted
        mail := { w.mail with recordMailbox := w.mail.recordMailbox.filter (fun x => !stale x) }
        dropped := w.dropped ++ w.mail.recordMailbox.filter stale }
  | .shutdown =>
      some { w with
        closed := true
        mail := { w.mail with recordMailbox := [] }
        dropped := w.dropped ++ w.mail.recordMailbox }

end MailWorld

/-! ### The two queues of an open turn run in step -/

/-- The message a queued input carries, if it is mail. -/
def agentMessageOf (entry : TurnInput × Option Text) : Option InterAgentMessage :=
  match entry.1 with
  | .agentMessage message => some message
  | _ => none

/-- The notices that background tasks post are not mail. -/
def NotMail (entry : TurnInput × Option Text) : Prop := agentMessageOf entry = none

/-- The works of a turn are the mail of its loop queue, in the same order. -/
structure SubagentSteering.InStep {τ : Type} (steering : SubagentSteering τ) : Prop where
  messages : steering.steeringInputs.view.entries.filterMap agentMessageOf
    = steering.steeringWork.map (·.workMessage)
  notices : ∀ e ∈ steering.steeringInputs.view.entries, e.2.isSome → NotMail e
  deferred : steering.steeringInputs.DeferredAll NotMail
  reserved : steering.steeringInputs.view.WellFormed

theorem filterMap_agentMessageOf_notices {new : List (TurnInput × Option Text)}
    (h : ∀ e ∈ new, NotMail e) : new.filterMap agentMessageOf = [] :=
  filterMap_eq_nil_iff.mpr h

theorem countP_isAgentMessage (entries : List (TurnInput × Option Text)) :
    (entries.map Prod.fst).countP isAgentMessage = (entries.filterMap agentMessageOf).length := by
  induction entries with
  | nil => rfl
  | cons entry rest ih =>
    obtain ⟨input, key⟩ := entry
    cases input with
    | agentMessage message =>
      simp [countP_cons, isAgentMessage, agentMessageOf, ih]
    | _ => simp [filterMap_cons, isAgentMessage, agentMessageOf, ih]

/-- The first transaction counts the mail of the acknowledged prefix. -/
theorem messageCount_eq (count : ℕ) (state : InputQueueState TurnInput) :
    messageCount count (readSteeringInputs state)
      = ((state.view.entries.take count).filterMap agentMessageOf).length := by
  have hcount : (max 0 (count : ℤ)).toNat = count := by omega
  have hread : readSteeringInputs state = state.view.entries.map Prod.fst := by
    simp only [readSteeringInputs, InputQueueState.view, List.map_map]
    rfl
  rw [messageCount, hcount, hread, ← map_take, countP_isAgentMessage]

namespace SubagentSteering.InStep

variable {τ : Type} {steering : SubagentSteering τ}

/-- A turn opens on an empty queue. -/
theorem empty : (⟨emptySteeringState, []⟩ : SubagentSteering τ).InStep where
  messages := rfl
  notices := fun _ hmem => absurd hmem not_mem_nil
  deferred := fun _ hmem => absurd hmem not_mem_nil
  reserved := le_refl _

section

variable (h : steering.InStep)
include h

variable {q : InputQueueState TurnInput}

/-- Appending notices keeps the step. -/
theorem append_notices
    {new : List (TurnInput × Option Text)} (hnew : ∀ e ∈ new, NotMail e)
    (hview : q.view = steering.steeringInputs.view.append new) (hdef : q.DeferredAll NotMail) :
    (⟨q, steering.steeringWork⟩ : SubagentSteering τ).InStep where
  messages := by
    simp only [hview, AckQueue.append_entries, filterMap_append,
      filterMap_agentMessageOf_notices hnew, List.append_nil]
    exact h.messages
  notices := by
    intro e he hkey
    rw [hview, AckQueue.append_entries, mem_append] at he
    rcases he with he | he
    · exact h.notices e he hkey
    · exact hnew e he
  deferred := hdef
  reserved := by
    rw [hview]
    exact h.reserved.append new

/-- A change that readers do not see keeps the step. -/
theorem same_view
    (hview : q.view = steering.steeringInputs.view) (hdef : q.DeferredAll NotMail) :
    (⟨q, steering.steeringWork⟩ : SubagentSteering τ).InStep :=
  h.append_notices (fun _ hmem => absurd hmem not_mem_nil) (by rw [hview, AckQueue.append_nil])
    hdef

/-- Reserving keeps the step. -/
theorem reserve
    (hview : q.view = steering.steeringInputs.view.reserve) (hdef : q.DeferredAll NotMail) :
    (⟨q, steering.steeringWork⟩ : SubagentSteering τ).InStep where
  messages := by rw [hview]; exact h.messages
  notices := by rw [hview]; exact h.notices
  deferred := hdef
  reserved := by rw [hview]; exact AckQueue.WellFormed.reserve _

/-- Withdrawing the notices of a task keeps the step: none of them is mail. -/
theorem dismiss (key : Text) :
    (⟨dismissBackgroundCompletion key steering.steeringInputs, steering.steeringWork⟩
      : SubagentSteering τ).InStep := by
  obtain ⟨new, hnew, hview, hdef⟩ := view_dismissBackgroundCompletion key h.deferred
  -- first the withdrawal alone
  have hmail : (steering.steeringInputs.view.dismiss (fun e => e.2 == some key)).entries.filterMap
      agentMessageOf = steering.steeringInputs.view.entries.filterMap agentMessageOf := by
    conv_rhs => rw [← take_append_drop steering.steeringInputs.view.reserved
      steering.steeringInputs.view.entries]
    rw [AckQueue.dismiss, filterMap_append, filterMap_append, filterMap_filter]
    congr 1
    refine filterMap_congr fun e he => ?_
    by_cases hkey : e.2 = some key
    · have : NotMail e := h.notices e (mem_of_mem_drop he) (by rw [hkey]; rfl)
      simp [hkey, show agentMessageOf e = none from this]
    · simp [hkey]
  have hsub := steering.steeringInputs.view.dismiss_sublist (fun e => e.2 == some key)
  refine ⟨?_, ?_, hdef, ?_⟩
  · simp only [hview, AckQueue.append_entries, filterMap_append, hmail,
      filterMap_agentMessageOf_notices hnew, List.append_nil]
    exact h.messages
  · intro e he hkey
    rw [hview, AckQueue.append_entries, mem_append] at he
    rcases he with he | he
    · exact h.notices e (hsub.subset he) hkey
    · exact hnew e he
  · simp only [hview]
    exact (h.reserved.dismiss _).append new

/-- Splitting the loop queue splits the works. -/
theorem messages_split (count : ℕ) :
    (steering.steeringInputs.view.entries.take count).filterMap agentMessageOf
        ++ (steering.steeringInputs.view.entries.drop count).filterMap agentMessageOf
      = steering.steeringWork.map (·.workMessage) := by
  rw [← filterMap_append, take_append_drop]
  exact h.messages

/-- **An acknowledgement removes the same mail from both queues.** -/
theorem acknowledge {count messages : ℕ} {next : SubagentSteering τ}
    (hmsg : messages = ((steering.steeringInputs.view.entries.take count).filterMap
      agentMessageOf).length)
    (hnext : steering.acknowledge messages count = some next) : next.InStep := by
  obtain ⟨new, hnew, hview, hdef⟩ := view_commitSteeringInputs count h.deferred
  unfold SubagentSteering.acknowledge at hnext
  split at hnext
  · cases hnext
  · cases hnext
    have hdrop : (steering.steeringInputs.view.entries.drop count).filterMap agentMessageOf
        = (steering.steeringWork.drop messages).map (·.workMessage) := by
      rw [map_drop, ← h.messages_split count, hmsg, drop_left]
    refine ⟨?_, ?_, hdef, ?_⟩
    · simp only [hview, AckQueue.append_entries, AckQueue.commit_entries, filterMap_append,
        filterMap_agentMessageOf_notices hnew, List.append_nil]
      exact hdrop
    · intro e he hkey
      rw [hview, AckQueue.append_entries, AckQueue.commit_entries, mem_append] at he
      rcases he with he | he
      · exact h.notices e (mem_of_mem_drop he) hkey
      · exact hnew e he
    · simp only [hview]
      exact (h.reserved.commit count).append new

end

end SubagentSteering.InStep

/-! ### Enqueueing -/

namespace Mail

variable {τ : Type}

/-- The open turn of a record, if there is one, is in step. -/
def InStep (mail : Mail τ) : Prop := ∀ steering, mail.recordSteering = some steering →
  steering.InStep

/-- **What posting mail does**: the work goes to the end of the mailbox, or, when that is empty, to
the end of both queues of the open turn. -/
theorem enqueueSubagentWork_cases (mail : Mail τ) (work : SubagentWork τ) :
    mail.enqueueSubagentWork work = { mail with recordMailbox := mail.recordMailbox ++ [work] } ∨
      ∃ steering inputs, mail.recordMailbox = [] ∧ mail.recordSteering = some steering ∧
        inputs.view = steering.steeringInputs.view.append [(.agentMessage work.workMessage, none)] ∧
        inputs.queueDeferredCompletions = steering.steeringInputs.queueDeferredCompletions ∧
        mail.enqueueSubagentWork work
          = { mail with recordSteering := some ⟨inputs, steering.steeringWork ++ [work]⟩ } := by
  unfold enqueueSubagentWork
  split
  · exact .inl rfl
  · next steering hsel =>
    have hempty : mail.recordMailbox = [] ∧ mail.recordSteering = some steering := by
      split at hsel
      · next hnil => exact ⟨List.isEmpty_iff.mp hnil, hsel⟩
      · cases hsel
    rcases view_enqueueSteeringInputs logicalTurnInputBytes steering.steeringInputs
        [.agentMessage work.workMessage] with ⟨hok, hview, hdef⟩ | ⟨⟨message, herr⟩, -⟩
    · split
      · next heq =>
        rw [heq] at hok
        cases hok
      · next inputs heq =>
        rw [heq] at hview hdef
        exact .inr ⟨steering, inputs, hempty.1, hempty.2, hview, hdef, rfl⟩
    · split
      · exact .inl rfl
      · next heq =>
        rw [heq] at herr
        cases herr

/-- The work goes behind everything not yet acknowledged. -/
theorem enqueueSubagentWork_order (mail : Mail τ) (work : SubagentWork τ) :
    (mail.enqueueSubagentWork work).unacknowledged ++ (mail.enqueueSubagentWork work).recordMailbox
      = mail.unacknowledged ++ mail.recordMailbox ++ [work] := by
  rcases mail.enqueueSubagentWork_cases work with h | ⟨steering, inputs, hbox, hst, -, -, h⟩
  · rw [h]
    simp [unacknowledged]
  · rw [h]
    simp [unacknowledged, hbox, hst]

theorem InStep.enqueueSubagentWork {mail : Mail τ} (h : mail.InStep) (work : SubagentWork τ) :
    (mail.enqueueSubagentWork work).InStep := by
  rcases mail.enqueueSubagentWork_cases work with hc | ⟨steering, inputs, -, hst, hview, hdef, hc⟩
  · rw [hc]
    exact h
  · rw [hc]
    intro st hsome
    cases hsome
    have hin := h steering hst
    refine ⟨?_, ?_, ?_, ?_⟩
    · simp [hview, hin.messages, agentMessageOf]
    · intro e he hkey
      rw [hview, AckQueue.append_entries, mem_append, mem_singleton] at he
      rcases he with he | rfl
      · exact hin.notices e he hkey
      · cases hkey
    · intro entry hmem
      rw [hdef] at hmem
      exact hin.deferred entry hmem
    · simp only [hview]
      exact hin.reserved.append _

theorem foldl_enqueueSubagentWork (works : List (SubagentWork τ)) (mail : Mail τ)
    (h : mail.InStep) :
    (works.foldl enqueueSubagentWork mail).InStep ∧
      (works.foldl enqueueSubagentWork mail).unacknowledged
          ++ (works.foldl enqueueSubagentWork mail).recordMailbox
        = mail.unacknowledged ++ mail.recordMailbox ++ works := by
  induction works generalizing mail with
  | nil => exact ⟨h, by simp⟩
  | cons work rest ih =>
    obtain ⟨hin, hord⟩ := ih (mail.enqueueSubagentWork work) (h.enqueueSubagentWork work)
    refine ⟨hin, ?_⟩
    rw [foldl_cons, hord, enqueueSubagentWork_order, append_assoc, singleton_append]

/-- **Opening a turn offers it the waiting mail in order.** -/
theorem acquire_spec {mail next : Mail τ} (h : mail.acquire emptySteeringState = some next) :
    next.InStep ∧ next.unacknowledged ++ next.recordMailbox
      = mail.unacknowledged ++ mail.recordMailbox := by
  unfold acquire at h
  split at h
  · cases h
  · next hnone =>
    cases h
    obtain ⟨hin, hord⟩ := foldl_enqueueSubagentWork mail.recordMailbox
      { recordMailbox := [], recordSteering := some ⟨emptySteeringState, []⟩ }
      (fun st hst => by
        rw [some.injEq] at hst
        exact hst ▸ SubagentSteering.InStep.empty)
    refine ⟨hin, hord.trans ?_⟩
    simp [unacknowledged, hnone]

end Mail

/-! ### The invariant of the mail -/

/-- Discarding part of the middle of a list without repetitions leaves the rest in order. -/
theorem filter_notMem_middle {α : Type*} [DecidableEq α] {a b c : List α} (p : α → Bool)
    (h : (a ++ b ++ c).Nodup) :
    (a ++ b ++ c).filter (fun x => x ∉ b.filter p) = a ++ b.filter (fun x => !p x) ++ c := by
  obtain ⟨hab, -, hc⟩ := nodup_append.mp h
  obtain ⟨-, -, ha⟩ := nodup_append.mp hab
  rw [filter_append, filter_append]
  congr 1
  · congr 1
    · refine filter_eq_self.mpr fun x hx => ?_
      have hxb : x ∉ b := fun hb => ha x hx x hb rfl
      simp [hxb]
    · refine filter_congr fun x hx => ?_
      simp [hx]
  · refine filter_eq_self.mpr fun x hx => ?_
    have hxb : x ∉ b := fun hb => hc x (mem_append_right _ hb) x hx rfl
    simp [hxb]

namespace MailWorld

/-- The works that are acknowledged, in the open turn, or in the mailbox. -/
def inOrder (w : MailWorld) : List (SubagentWork ℕ) :=
  w.acknowledged ++ w.mail.unacknowledged ++ w.mail.recordMailbox

/-- What holds of a record's mail at all times. -/
structure Inv (w : MailWorld) : Prop where
  order : w.inOrder = w.enqueued.filter (fun x => x ∉ w.dropped)
  tags : w.enqueued.map (·.workTag) = List.range w.enqueued.length
  dropped_enqueued : ∀ x ∈ w.dropped, x ∈ w.enqueued
  dropped_reason : ∀ x ∈ w.dropped, Mail.retain w.aborted x = false ∨ w.closed = true
  inStep : w.mail.InStep
  /-- Between its two transactions an acknowledgement still counts the same messages. -/
  acknowledging : ∀ count messages, w.acknowledging = some (count, messages) →
    ∃ steering, w.mail.recordSteering = some steering ∧
      count ≤ steering.steeringInputs.view.reserved ∧
      messages = ((steering.steeringInputs.view.entries.take count).filterMap agentMessageOf).length

theorem inv_init : init.Inv where
  order := rfl
  tags := rfl
  dropped_enqueued := fun _ h => absurd h not_mem_nil
  dropped_reason := fun _ h => absurd h not_mem_nil
  inStep := fun _ h => by cases h
  acknowledging := fun _ _ h => by cases h

variable {w w' : MailWorld}

theorem Inv.enqueued_nodup (h : w.Inv) : w.enqueued.Nodup :=
  List.Nodup.of_map _ (h.tags ▸ nodup_range)

theorem Inv.inOrder_nodup (h : w.Inv) : w.inOrder.Nodup :=
  h.order ▸ h.enqueued_nodup.filter _

/-- A work enqueued now is none of the earlier ones. -/
theorem Inv.fresh (h : w.Inv) {work : SubagentWork ℕ} (htag : work.workTag = w.enqueued.length) :
    work ∉ w.enqueued := by
  intro hmem
  have hlt : work.workTag ∈ List.range w.enqueued.length :=
    h.tags ▸ List.mem_map_of_mem hmem
  rw [htag, mem_range] at hlt
  omega

/-- Discarding further works removes them from the history's kept part. -/
theorem filter_dropped_append (enqueued dropped now : List (SubagentWork ℕ)) :
    enqueued.filter (fun x => x ∉ dropped ++ now)
      = (enqueued.filter (fun x => x ∉ dropped)).filter (fun x => x ∉ now) := by
  rw [List.filter_filter]
  refine filter_congr fun x _ => ?_
  simp [Bool.and_comm]

/-- A change of the loop queue that keeps the reserved prefix keeps the invariant. -/
theorem Inv.onInputs {f : InputQueueState TurnInput → InputQueueState TurnInput} (h : w.Inv)
    (hstep : ∀ steering : SubagentSteering ℕ, steering.InStep →
      (⟨f steering.steeringInputs, steering.steeringWork⟩ : SubagentSteering ℕ).InStep)
    (hstable : w.acknowledging.isSome → ∀ steering : SubagentSteering ℕ, steering.InStep →
      ∀ n ≤ steering.steeringInputs.view.reserved,
        n ≤ (f steering.steeringInputs).view.reserved ∧
        (f steering.steeringInputs).view.entries.take n
          = steering.steeringInputs.view.entries.take n)
    (hw : w.onInputs f = some w') : w'.Inv := by
  obtain ⟨steering, hst, rfl⟩ := map_eq_some_iff.mp hw
  refine ⟨?_, h.tags, h.dropped_enqueued, h.dropped_reason, ?_, ?_⟩
  · -- neither work queue changed
    have := h.order
    simpa [inOrder, Mail.unacknowledged, hst] using this
  · intro st hsome
    rw [some.injEq] at hsome
    exact hsome ▸ hstep steering (h.inStep steering hst)
  · intro count messages hack
    obtain ⟨st, hst', hle, hmsg⟩ := h.acknowledging count messages hack
    rw [hst, some.injEq] at hst'
    subst hst'
    have hsome : w.acknowledging.isSome := by rw [show w.acknowledging = _ from hack]; rfl
    obtain ⟨hle', htake⟩ := hstable hsome steering (h.inStep steering hst) count hle
    exact ⟨_, rfl, hle', by rw [hmsg, ← htake]⟩

/-- Notices arriving behind the reserved prefix do not move it. -/
theorem take_append_reserved {α : Type*} {q : AckQueue α} (hq : q.WellFormed) (new : List α)
    {n : ℕ} (hn : n ≤ q.reserved) :
    n ≤ (q.append new).reserved ∧ (q.append new).entries.take n = q.entries.take n :=
  ⟨hn, q.take_append_entries new (le_trans hn hq)⟩

section

variable (h : w.Inv)
include h

theorem Inv.enqueue (turn : Option RootTurnId) (message : InterAgentMessage)
    (hw : w.step (.enqueue turn message) = some w') : w'.Inv := by
  rw [step, some.injEq] at hw
  subst hw
  have hfresh : (⟨turn, message, w.enqueued.length⟩ : SubagentWork ℕ) ∉ w.enqueued := h.fresh rfl
  refine ⟨?_, ?_, ?_, h.dropped_reason, h.inStep.enqueueSubagentWork _, ?_⟩
  · have hnot : (⟨turn, message, w.enqueued.length⟩ : SubagentWork ℕ) ∉ w.dropped :=
      fun hd => hfresh (h.dropped_enqueued _ hd)
    have hord := h.order
    simp only [inOrder, append_assoc] at hord ⊢
    rw [Mail.enqueueSubagentWork_order, filter_append, ← hord]
    simp [hnot]
  · simp only [map_append, h.tags, map_cons, map_nil, length_append,
      length_singleton]
    exact range_succ.symm
  · intro x hx
    exact mem_append_left _ (h.dropped_enqueued x hx)
  · intro count messages hack
    obtain ⟨steering, hst, hle, hmsg⟩ := h.acknowledging count messages hack
    rcases w.mail.enqueueSubagentWork_cases ⟨turn, message, w.enqueued.length⟩ with
      hc | ⟨st, inputs, -, hst', hview, -, hc⟩
    · exact ⟨steering, by rw [hc]; exact hst, hle, hmsg⟩
    · rw [hst, some.injEq] at hst'
      subst hst'
      obtain ⟨hle', htake⟩ := take_append_reserved (h.inStep steering hst).reserved
        [(.agentMessage message, none)] hle
      rw [← hview] at hle' htake
      exact ⟨_, by rw [hc], hle', by rw [hmsg, ← htake]⟩

theorem Inv.acquire (hw : w.step .acquire = some w') : w'.Inv := by
  obtain ⟨mail, hmail, rfl⟩ := map_eq_some_iff.mp hw
  obtain ⟨hin, hord⟩ := Mail.acquire_spec hmail
  -- no turn was open, so no acknowledgement was in progress
  have hnone : w.mail.recordSteering = none := by
    unfold Mail.acquire at hmail
    split at hmail
    · cases hmail
    · assumption
  refine ⟨?_, h.tags, h.dropped_enqueued, h.dropped_reason, hin, ?_⟩
  · have := h.order
    simp only [inOrder, append_assoc] at this ⊢
    rw [hord, this]
  · intro count messages hack
    obtain ⟨steering, hst, -⟩ := h.acknowledging count messages hack
    rw [hnone] at hst
    cases hst

theorem Inv.release (hw : w.step .release = some w') : w'.Inv := by
  obtain ⟨steering, hst, rfl⟩ := map_eq_some_iff.mp hw
  refine ⟨?_, h.tags, ?_, ?_, ?_, ?_⟩
  · have hmid := filter_notMem_middle (fun work => w.closed || !Mail.retain w.aborted work)
      h.inOrder_nodup
    simp only [inOrder] at hmid ⊢
    rw [filter_dropped_append, ← h.order, inOrder, hmid]
    cases hclosed : w.closed <;>
      simp [Mail.release, Mail.unacknowledged]
  · intro x hx
    rcases mem_append.mp hx with hx | hx
    · exact h.dropped_enqueued x hx
    · have hmem : x ∈ w.inOrder :=
        mem_append_left _ (mem_append_right _ (mem_of_mem_filter hx))
      rw [h.order] at hmem
      exact mem_of_mem_filter hmem
  · intro x hx
    rcases mem_append.mp hx with hx | hx
    · exact h.dropped_reason x hx
    · have := (mem_filter.mp hx).2
      simp only [Bool.or_eq_true, Bool.not_eq_true'] at this
      exact this.symm
  · intro st hsome
    cases hsome
  · intro count messages hack
    cases hack

theorem Inv.countMessages (count : ℕ)
    (hw : w.step (.countMessages count) = some w') : w'.Inv := by
  simp only [step] at hw
  split at hw
  · next steering hst hnone =>
    split at hw
    · next hle =>
      cases hw
      refine ⟨h.order, h.tags, h.dropped_enqueued, h.dropped_reason, h.inStep, ?_⟩
      intro c m hack
      rw [some.injEq, Prod.mk.injEq] at hack
      obtain ⟨rfl, rfl⟩ := hack
      exact ⟨steering, hst, hle, messageCount_eq count _⟩
    · cases hw
  · cases hw

theorem Inv.acknowledge (hw : w.step .acknowledge = some w') : w'.Inv := by
  simp only [step] at hw
  split at hw
  · next steering count messages hst hack =>
    obtain ⟨next, hnext, rfl⟩ := map_eq_some_iff.mp hw
    obtain ⟨st, hst', hle, hmsg⟩ := h.acknowledging count messages hack
    rw [hst, some.injEq] at hst'
    subst hst'
    refine ⟨?_, h.tags, h.dropped_enqueued, h.dropped_reason, ?_, ?_⟩
    · -- the acknowledged works move from the front of the turn to the end of the history
      have hwork : next.steeringWork = steering.steeringWork.drop messages := by
        unfold SubagentSteering.acknowledge at hnext
        split at hnext
        · cases hnext
        · rw [some.injEq] at hnext
          rw [← hnext]
      have := h.order
      simp only [inOrder, Mail.unacknowledged, hst, map_some, getD_some] at this ⊢
      rw [← this, hwork, append_assoc w.acknowledged, take_append_drop]
    · intro s hsome
      rw [some.injEq] at hsome
      exact hsome ▸ (h.inStep steering hst).acknowledge hmsg hnext
    · intro c m hc
      cases hc
  · cases hw

theorem Inv.take (hw : w.step .take = some w') : w'.Inv := by
  simp only [step] at hw
  split at hw
  · next work rest hst hbox =>
    cases hw
    refine ⟨?_, h.tags, h.dropped_enqueued, h.dropped_reason, h.inStep, ?_⟩
    · have := h.order
      simpa [inOrder, Mail.unacknowledged, hst, hbox] using this
    · intro c m hack
      obtain ⟨steering, hst', -⟩ := h.acknowledging c m hack
      rw [hst] at hst'
      cases hst'
  · cases hw

/-- Discarding works of the mailbox for a reason that then holds of them keeps the invariant. -/
theorem Inv.discard (p : SubagentWork ℕ → Bool) (closed : Bool)
    (aborted : List RootTurnId)
    (hold : ∀ x : SubagentWork ℕ, Mail.retain w.aborted x = false ∨ w.closed = true →
      Mail.retain aborted x = false ∨ closed = true)
    (hnew : ∀ x, p x = true → Mail.retain aborted x = false ∨ closed = true) :
    Inv { w with
      closed := closed
      aborted := aborted
      mail := { w.mail with recordMailbox := w.mail.recordMailbox.filter (fun x => !p x) }
      dropped := w.dropped ++ w.mail.recordMailbox.filter p } := by
  refine ⟨?_, h.tags, ?_, ?_, h.inStep, h.acknowledging⟩
  · have hnodup := h.inOrder_nodup
    rw [← List.append_nil w.inOrder, inOrder] at hnodup
    have hmid := filter_notMem_middle p hnodup
    rw [filter_dropped_append, ← h.order, inOrder]
    rw [List.append_nil, List.append_nil] at hmid
    exact hmid.symm
  · intro x hx
    rcases mem_append.mp hx with hx | hx
    · exact h.dropped_enqueued x hx
    · have hmem : x ∈ w.inOrder := mem_append_right _ (mem_of_mem_filter hx)
      rw [h.order] at hmem
      exact mem_of_mem_filter hmem
  · intro x hx
    rcases mem_append.mp hx with hx | hx
    · exact hold x (h.dropped_reason x hx)
    · exact hnew x (mem_filter.mp hx).2

/-- **Every transaction keeps the invariant.** -/
theorem Inv.step {e : MailEvent} (hw : w.step e = some w') : w'.Inv := by
  cases e with
  | enqueue turn message => exact h.enqueue turn message hw
  | acquire => exact h.acquire hw
  | release => exact h.release hw
  | reserve =>
    simp only [MailWorld.step] at hw
    split at hw
    · cases hw
    · next hnone =>
      refine h.onInputs (fun st hst => ?_) (fun hsome => absurd hsome hnone) hw
      exact hst.reserve (view_reserveInputQueueState _) hst.deferred
  | close =>
    simp only [MailWorld.step] at hw
    split at hw
    · cases hw
    · next hnone =>
      refine h.onInputs (fun st hst => ?_) (fun hsome => absurd hsome hnone) hw
      refine hst.reserve (view_closeSteeringInputs hst.reserved) ?_
      unfold closeSteeringInputs
      split <;> exact hst.deferred
  | notice key text =>
    rw [MailWorld.step] at hw
    refine h.onInputs (fun st hst => ?_) (fun _ st hst n hn => ?_) hw
    · obtain ⟨new, hnew, hview, hdef⟩ := view_enqueueBackgroundCompletion logicalTurnInputBytes
        none key (.userMessage text) hst.deferred rfl
      exact hst.append_notices hnew hview hdef
    · obtain ⟨new, -, hview, -⟩ := view_enqueueBackgroundCompletion logicalTurnInputBytes
        none key (.userMessage text) hst.deferred rfl
      rw [hview]
      exact take_append_reserved hst.reserved new hn
  | dismiss key =>
    refine h.onInputs (fun st hst => hst.dismiss key) (fun _ st hst n hn => ?_) hw
    obtain ⟨new, -, hview, -⟩ := view_dismissBackgroundCompletion key hst.deferred
    rw [hview]
    obtain ⟨hle, htake⟩ := take_append_reserved
      (hst.reserved.dismiss (fun e => e.2 == some key)) new hn
    exact ⟨hle, htake.trans (AckQueue.take_dismiss_entries hst.reserved _ hn)⟩
  | wake =>
    have hview : ∀ q : InputQueueState TurnInput,
        ((awaitSteeringInput q).getD q).view = q.view := by
      intro q
      cases hq : awaitSteeringInput q with
      | none => rfl
      | some next => exact view_awaitSteeringInput hq
    rw [MailWorld.step] at hw
    refine h.onInputs (fun st hst => hst.same_view (hview _) ?_) (fun _ st _ n hn => ?_) hw
    · cases hq : awaitSteeringInput st.steeringInputs with
      | none => exact hst.deferred
      | some next =>
        intro entry hmem
        unfold awaitSteeringInput at hq
        split at hq
        · rw [some.injEq] at hq
          rw [← hq, getD_some, List.mem_map] at hmem
          obtain ⟨old, hold, rfl⟩ := hmem
          exact hst.deferred old hold
        · cases hq
    · rw [hview]
      exact ⟨hn, rfl⟩
  | countMessages count => exact h.countMessages count hw
  | acknowledge => exact h.acknowledge hw
  | take => exact h.take hw
  | abort turn =>
    rw [MailWorld.step, some.injEq] at hw
    subst hw
    have hcases : ∀ x : SubagentWork ℕ, Mail.retain (turn :: w.aborted) x = false ↔
        x.workRootTurnId = some turn ∨ Mail.retain w.aborted x = false := by
      intro x
      cases hx : x.workRootTurnId <;> simp [Mail.retain, hx]
      tauto
    refine h.discard (fun x => x.workRootTurnId == some turn) w.closed (turn :: w.aborted)
      (fun x hx => ?_) (fun x hx => ?_)
    · exact hx.imp (fun h => (hcases x).mpr (.inr h)) id
    · exact .inl ((hcases x).mpr (.inl (by simpa using hx)))
  | shutdown =>
    rw [MailWorld.step, some.injEq] at hw
    subst hw
    have := h.discard (fun _ => true) true w.aborted (fun _ _ => .inr rfl) (fun _ _ => .inr rfl)
    simpa using this

end

/-- The invariant holds in every run. -/
theorem inv_of_reachable (h : Reachable MailWorld.step init w) : w.Inv :=
  h.invariant inv_init fun _ _ _ hinv _ hst => hinv.step hst

end MailWorld

/-! ### Delivery -/

/-- The works of the open turn are the mail in the loop's queue, whatever notices lie between. -/
theorem steeringWork_in_step {w : MailWorld} {steering : SubagentSteering ℕ}
    (h : Reachable MailWorld.step .init w) (hst : w.mail.recordSteering = some steering) :
    (readSteeringInputs steering.steeringInputs).filterMap
        (fun input => agentMessageOf (input, none))
      = steering.steeringWork.map (·.workMessage) := by
  have hmsg := ((MailWorld.inv_of_reachable h).inStep steering hst).messages
  rw [← hmsg, readSteeringInputs, InputQueueState.view, filterMap_map, filterMap_map]
  rfl

/-- An acknowledgement in progress can always be completed: the works it removes are there. -/
theorem acknowledgement_never_blocks {w : MailWorld}
    (h : Reachable MailWorld.step .init w) (hack : w.acknowledging.isSome) :
    (w.step .acknowledge).isSome := by
  have hinv := MailWorld.inv_of_reachable h
  obtain ⟨⟨count, messages⟩, hsome⟩ := isSome_iff_exists.mp hack
  obtain ⟨steering, hst, -, hmsg⟩ := hinv.acknowledging count messages hsome
  have hlen := congrArg List.length ((hinv.inStep steering hst).messages_split count)
  rw [length_append, length_map, ← hmsg] at hlen
  have hle : ¬ steering.steeringWork.length < messages := by omega
  simp [MailWorld.step, hst, hsome, SubagentSteering.acknowledge, hle]

/-- **Child mail is delivered exactly once and in order.**  At any time the acknowledged works, the
works of the open turn and the mailbox, in this order, are exactly the works enqueued so far in the
order in which they were enqueued, without those that were discarded; no work occurs twice; and
only work of an aborted turn or of a closed record is ever discarded. -/
theorem mail_delivered_once_in_order {w : MailWorld}
    (h : Reachable MailWorld.step .init w) :
    w.acknowledged ++ w.mail.unacknowledged ++ w.mail.recordMailbox
        = w.enqueued.filter (fun work => work ∉ w.dropped) ∧
      w.enqueued.Nodup ∧
      ∀ work ∈ w.dropped, (∃ turn ∈ w.aborted, work.workRootTurnId = some turn) ∨
        w.closed = true := by
  have hinv := MailWorld.inv_of_reachable h
  refine ⟨hinv.order, hinv.enqueued_nodup, fun work hwork => ?_⟩
  rcases hinv.dropped_reason work hwork with hret | hclosed
  · left
    cases hturn : work.workRootTurnId with
    | none => simp [Mail.retain, hturn] at hret
    | some turn => exact ⟨turn, by simpa [Mail.retain, hturn] using hret, rfl⟩
  · exact .inr hclosed

/-- Mail that waits for a turn and is acknowledged in it, mail whose turn is aborted while it is
steering, and mail that is left to the next turn. -/
def deliveryRun : List MailEvent :=
  let message : InterAgentMessage :=
    { messageAuthor := ['/'], messageRecipient := ['a'], messageType := .queued
      messageContent := .plain ['x'], messageMetadata := none }
  [.enqueue (some 1) message, .acquire, .notice ['k'] ['n'], .enqueue (some 2) message, .reserve,
    .enqueue none message, .countMessages 2, .acknowledge, .abort 2, .release, .take]

theorem mail_delivered_in_deliveryRun :
    ∃ w, Machine.run MailWorld.step .init deliveryRun = some w ∧
      w.enqueued.length = 3 ∧ w.dropped.length = 1 ∧ w.acknowledged.length = 2 ∧
      w.acknowledged ++ w.mail.unacknowledged ++ w.mail.recordMailbox
        = w.enqueued.filter (fun work => work ∉ w.dropped) := by
  obtain ⟨w, hw⟩ := isSome_iff_exists.mp
    (show (Machine.run MailWorld.step .init deliveryRun).isSome = true from rfl)
  refine ⟨w, hw, ?_, ?_, ?_, (mail_delivered_once_in_order (reachable_of_run hw)).1⟩
  all_goals
    cases hw
    rfl

theorem acknowledgement_never_blocks_in_deliveryRun :
    ∃ w, Machine.run MailWorld.step .init (deliveryRun.take 7) = some w ∧
      w.acknowledging = some (2, 1) ∧ (w.step .acknowledge).isSome := by
  obtain ⟨w, hw⟩ := isSome_iff_exists.mp
    (show (Machine.run MailWorld.step .init (deliveryRun.take 7)).isSome = true from rfl)
  have hack : w.acknowledging = some (2, 1) := by
    cases hw
    rfl
  exact ⟨w, hw, hack, acknowledgement_never_blocks (reachable_of_run hw) (by rw [hack]; rfl)⟩

theorem steeringWork_in_step_in_deliveryRun :
    ∃ w steering, Machine.run MailWorld.step .init (deliveryRun.take 7) = some w ∧
      w.mail.recordSteering = some steering ∧ steering.steeringWork.length = 3 ∧
      (readSteeringInputs steering.steeringInputs).filterMap
        (fun input => agentMessageOf (input, none)) = steering.steeringWork.map (·.workMessage) := by
  obtain ⟨w, hw⟩ := isSome_iff_exists.mp
    (show (Machine.run MailWorld.step .init (deliveryRun.take 7)).isSome = true from rfl)
  have hst : ∃ steering, w.mail.recordSteering = some steering ∧
      steering.steeringWork.length = 3 := by
    cases hw
    exact ⟨_, rfl, rfl⟩
  obtain ⟨steering, hst, hlength⟩ := hst
  exact ⟨w, steering, hw, hst, hlength, steeringWork_in_step (reachable_of_run hw) hst⟩

end HaskellAgent
