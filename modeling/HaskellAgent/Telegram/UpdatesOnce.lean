import HaskellAgent.Lib.JoinTrimmed
import HaskellAgent.Lib.Machine
import HaskellAgent.Telegram.PendingActions

/-!
# Updates that ask for a turn are handled once

An update that asks for a turn is stored while the worker of its chat may be running an action that
is still in the queue.  Where the update is joined to that very action, the queue holds the joined
action under the number of the update, and the worker, which knows its own action only by the
earlier number, does not remove it: what both hold is run twice.  Otherwise every update is in one
place.
-/

open List Option Function FinMap

namespace HaskellAgent
namespace Telegram

open Machine

/-- An update that asks for a turn. -/
structure Incoming where
  updateId : ℤ
  chat : TelegramChatKey
  text : Text
  attachments : List TelegramMedia
  voice : Option TelegramVoice
  deriving DecidableEq

def isTurn : PendingChatAction → Bool
  | .runPendingTurn _ => true
  | .runPendingMediaTurn _ => true
  | _ => false

def actionVoice : PendingChatAction → Option TelegramVoice
  | .runPendingTurn pending => pending.pendingTurnVoice
  | _ => none

/-- The action of an update that asks for a turn and does not edit a message. -/
def incomingAction (updateId : ℤ) : TelegramUpdateAction → Option PendingChatAction
  | .queueTurn messageId key text voice =>
    some (.runPendingTurn ⟨updateId, messageId, key, text, voice⟩)
  | .queueMediaTurn pending =>
    if pending.pendingMediaEdited = true then none
    else some (.runPendingMediaTurn { pending with pendingMediaUpdateId := updateId })
  | _ => none

def incomingOf (action : PendingChatAction) : Incoming where
  updateId := pendingActionUpdateId action
  chat := pendingActionChat action
  text := (pendingActionParts action).text
  attachments := (pendingActionParts action).media
  voice := actionVoice action

/-- The action that a worker has taken, and the prompt that it runs: the same action, or with a
transcript in place of a voice message. -/
structure TelegramWorker where
  action : PendingChatAction
  prompt : PendingChatAction
  deriving DecidableEq

/-- The state, the chats that have a worker, and what each worker has taken.  The rest records what
has happened: the updates that were accepted, those that the action of a number was made of, the
transcripts, and the prompts that were run to the end. -/
structure TelegramWorld where
  state : TelegramState
  workers : FinMap TelegramChatKey (Option TelegramWorker)
  accepted : List Incoming
  batch : ℤ → List Incoming
  transcripts : List (ℤ × Text)
  completed : List PendingChatAction

inductive TelegramEvent
  | update (updateId : ℤ) (action : TelegramUpdateAction)
  | schedule (chat : TelegramChatKey)
  | next (chat : TelegramChatKey)
  | transcribe (chat : TelegramChatKey) (clean : Text)
  | complete (chat : TelegramChatKey) (response : TelegramTurnResponse)
  | fail (chat : TelegramChatKey) (err : Text) (now : Timestamp)

section Step

variable (library : TelegramLibrary)

/-- An update is stored; where it was stored before it only moves the offset. -/
def TelegramWorld.store (w : TelegramWorld) (updateId : ℤ) (action : TelegramUpdateAction)
    (incoming : PendingChatAction) : TelegramWorld :=
  if updateAlreadyStored updateId w.state = true then
    { w with state := storeUpdateAction library updateId action w.state }
  else
    let joined := (previousBatchableAction library incoming w.state).elim []
      fun previous => w.batch (pendingActionUpdateId previous)
    { w with
      state := storeUpdateAction library updateId action w.state
      accepted := w.accepted ++ [incomingOf incoming]
      batch := Function.update w.batch updateId (joined ++ [incomingOf incoming]) }

def telegramStep (w : TelegramWorld) : TelegramEvent → Option TelegramWorld
  | .update updateId action =>
    (incomingAction updateId action).map (w.store library updateId action)
  | .schedule chat =>
    -- chats with a queue get one worker
    if (w.state.pendingQueues.lookup chat).isSome ∧ w.workers.lookup chat = none then
      some { w with workers := w.workers.insert chat none }
    else none
  | .next chat =>
    match w.workers.lookup chat with
    | some none =>
      match nextPendingAction chat w.state with
      | none => some { w with workers := w.workers.delete chat }
      | some action => some { w with workers := w.workers.insert chat (some ⟨action, action⟩) }
    | _ => none
  | .transcribe chat clean =>
    match w.workers.lookup chat with
    | some (some ⟨.runPendingTurn pending, prompt⟩) =>
      if pending.pendingTurnVoice.isSome ∧ telegramCommand library pending.pendingTurnText = none ∧
          prompt = .runPendingTurn pending then
        let transcript := voicePrompt pending clean
        some { w with
          state :=
            checkpointPendingVoiceTranscript pending.pendingTurnUpdateId transcript w.state
          workers := w.workers.insert chat (some
            { action := .runPendingTurn pending
              prompt := .runPendingTurn
                { pending with pendingTurnText := transcript, pendingTurnVoice := none } })
          transcripts := w.transcripts ++ [(pending.pendingTurnUpdateId, transcript)] }
      else none
    | _ => none
  | .complete chat response =>
    match w.workers.lookup chat with
    | some (some worker) =>
      some { w with
        state := performed library worker.action response w.state
        workers := w.workers.insert chat none
        completed :=
          if isTurn worker.action = true then w.completed ++ [worker.prompt] else w.completed }
    | _ => none
  | .fail chat err now =>
    match w.workers.lookup chat with
    | some (some worker) =>
      some { w with
        state := (recordPendingFailure library worker.action err now w.state).1
        workers := w.workers.insert chat none }
    | _ => none

end Step

/-- The gateway before its first update. -/
def idleGateway : TelegramWorld where
  state := emptyTelegramState
  workers := .empty
  accepted := []
  batch := fun _ => []
  transcripts := []
  completed := []

/-! ### Where updates are -/

/-- The action that is pending in a chat under a number. -/
def TelegramState.pending (state : TelegramState) (chat : TelegramChatKey) (updateId : ℤ) :
    Option PendingChatAction :=
  (state.pendingQueues.lookup chat).bind (·.lookup updateId)

inductive Place
  | pending (chat : TelegramChatKey) (updateId : ℤ)
  | deadLetter (index : ℕ)
  | completed (index : ℕ)
  deriving DecidableEq

/-- The turn in a place: answers are not turns. -/
def TelegramWorld.turnAt (w : TelegramWorld) (place : Place) : Option PendingChatAction :=
  (match place with
    | .pending chat updateId => w.state.pending chat updateId
    | .deadLetter index => w.state.deadLetters[index]?.bind (·.deadLetterAction)
    | .completed index => w.completed[index]?).filter isTurn

/-- The update is part of the turn in a place. -/
def TelegramWorld.Holds (w : TelegramWorld) (incoming : Incoming) (place : Place) : Prop :=
  ∃ action, w.turnAt place = some action ∧ incoming ∈ w.batch (pendingActionUpdateId action)

/-- The texts of the updates that were joined; a text that stands alone is left as it is. -/
def joinTexts : List Text → Text
  | [text] => text
  | texts => pendingTurnSeparator.intercalate
      ((texts.map strip).filter fun text => !text.isEmpty)

/-- The text stands for the update: its own text with its voice message, or the transcript of that.
-/
def Incoming.Shown (transcripts : List (ℤ × Text)) (voice : Option TelegramVoice)
    (incoming : Incoming) (text : Text) : Prop :=
  (text = incoming.text ∧ voice = incoming.voice) ∨
    (incoming.voice.isSome ∧ voice = none ∧ (incoming.updateId, text) ∈ transcripts)

/-- The action holds the text and the attachments of each of the updates, and nothing more. -/
def BuiltFrom (transcripts : List (ℤ × Text)) (incoming : List Incoming)
    (action : PendingChatAction) : Prop :=
  (∃ texts, List.Forall₂ (Incoming.Shown transcripts (actionVoice action)) incoming texts ∧
    (pendingActionParts action).text = joinTexts texts) ∧
  (pendingActionParts action).media = incoming.flatMap (·.attachments)

/-- The turns of a chat that were run. -/
def TelegramWorld.runsOf (w : TelegramWorld) (chat : TelegramChatKey) : List PendingChatAction :=
  w.completed.filter fun action => pendingActionChat action = chat

/-- A turn that a worker ends is still in the queue under its number: no message that came
meanwhile was joined to it. -/
def TelegramWorld.EndsInQueue (library : TelegramLibrary) (w : TelegramWorld)
    (event : TelegramEvent) : Prop :=
  match event with
  | .complete chat _ => ∀ worker, w.workers.lookup chat = some (some worker) →
      isTurn worker.action = true →
      (w.state.pending chat (pendingActionUpdateId worker.action)).isSome
  | .fail chat err _ => ∀ worker, w.workers.lookup chat = some (some worker) →
      isTurn worker.action = true → isFinalFailure library worker.action err w.state = true →
      (w.state.pending chat (pendingActionUpdateId worker.action)).isSome
  | _ => True

/-! ### What each operation does to the queues -/

section Pending

variable {state : TelegramState} {action : PendingChatAction} {chat : TelegramChatKey} {n : ℤ}

@[simp] theorem pending_enqueue :
    (enqueuePendingAction action state).pending chat n =
      if chat = pendingActionChat action ∧ n = pendingActionUpdateId action then some action
      else state.pending chat n := by
  rw [TelegramState.pending, enqueuePendingAction, insertPendingAction]
  dsimp only
  rw [lookup_alter]
  by_cases hchat : chat = pendingActionChat action
  · subst hchat
    rw [if_pos rfl, Option.bind_some, lookup_insert]
    by_cases hn : n = pendingActionUpdateId action
    · rw [if_pos hn, if_pos ⟨rfl, hn⟩]
    · rw [if_neg hn, if_neg fun h => hn h.2, TelegramState.pending]
      cases state.pendingQueues.lookup (pendingActionChat action) with
      | none | some queue => rfl
  · rw [if_neg hchat, if_neg fun h => hchat h.1]
    rfl

@[simp] theorem pending_delete :
    (deletePendingAction action state).pending chat n =
      if chat = pendingActionChat action ∧ n = pendingActionUpdateId action then none
      else state.pending chat n := by
  rw [TelegramState.pending, deletePendingAction]
  dsimp only
  rw [lookup_alter]
  by_cases hchat : chat = pendingActionChat action
  · subst hchat
    rw [if_pos rfl, TelegramState.pending]
    cases hqueue : state.pendingQueues.lookup (pendingActionChat action) with
    | none => simp
    | some queue =>
      have hdelete : (if (queue.delete (pendingActionUpdateId action)).keys = [] then none
          else some (queue.delete (pendingActionUpdateId action))).bind (·.lookup n) =
          (queue.delete (pendingActionUpdateId action)).lookup n := by
        split
        · next hkeys => exact (lookup_eq_none_of_keys hkeys).symm
        · rfl
      rw [Option.bind_some, hdelete, lookup_delete]
      by_cases hn : n = pendingActionUpdateId action
      · rw [if_pos hn, if_pos ⟨rfl, hn⟩]
      · rw [if_neg hn, if_neg fun h => hn h.2]
        rfl
  · rw [if_neg hchat, if_neg fun h => hchat h.1]
    rfl

@[simp] theorem pending_complete :
    (completePendingAction action state).pending chat n =
      if chat = pendingActionChat action ∧ n = pendingActionUpdateId action then none
      else state.pending chat n :=
  pending_delete

@[simp] theorem pending_authorizeGroupKey {key : TelegramChatKey} :
    (authorizeGroupKey key state).pending chat n = state.pending chat n := by
  unfold authorizeGroupKey
  split <;> rfl

@[simp] theorem pending_advanceOffset {updateId : ℤ} :
    (advanceOffset updateId state).pending chat n = state.pending chat n := rfl

/-- A turn under the number of the update has its voice message replaced. -/
def withTranscript (updateId : ℤ) (transcript : Text) : PendingChatAction → PendingChatAction
  | .runPendingTurn current =>
    if current.pendingTurnUpdateId = updateId then
      .runPendingTurn { current with pendingTurnText := transcript, pendingTurnVoice := none }
    else .runPendingTurn current
  | current => current

theorem pending_checkpoint {updateId : ℤ} {transcript : Text} :
    (checkpointPendingVoiceTranscript updateId transcript state).pending chat n =
      (state.pending chat n).map (withTranscript updateId transcript) := by
  rw [TelegramState.pending, TelegramState.pending, checkpointPendingVoiceTranscript]
  dsimp only
  rw [lookup_map]
  cases state.pendingQueues.lookup chat with
  | none | some queue => rfl

theorem nextPendingAction_eq_some (h : nextPendingAction chat state = some action) :
    ∃ n, state.pending chat n = some action ∧ ∀ m, (state.pending chat m).isSome → n ≤ m := by
  obtain ⟨queue, hqueue, hnext⟩ := bind_eq_some_iff.mp h
  obtain ⟨⟨n, a⟩, hmin, rfl⟩ := map_eq_some_iff.mp hnext
  obtain ⟨hlookup, hle⟩ := lookupMin_eq_some hmin
  have hpending : ∀ m, state.pending chat m = queue.lookup m := fun m => by
    rw [TelegramState.pending, hqueue]
    rfl
  refine ⟨n, (hpending n).trans hlookup, fun m hm => ?_⟩
  rw [hpending] at hm
  exact hle m hm

theorem previousBatchableAction_eq_some {library : TelegramLibrary} {previous : PendingChatAction}
    (h : previousBatchableAction library action state = some previous) :
    ∃ n, state.pending (pendingActionChat action) n = some previous ∧
      (∀ m, (state.pending (pendingActionChat action) m).isSome → m ≤ n) ∧
      guardBatchable library action = true ∧ guardBatchable library previous = true := by
  unfold previousBatchableAction at h
  split at h
  · next hincoming =>
    obtain ⟨queue, hqueue, h⟩ := bind_eq_some_iff.mp h
    obtain ⟨⟨n, a⟩, hmax, h⟩ := bind_eq_some_iff.mp h
    dsimp only at h
    split at h
    · next hprevious =>
      split at h
      · cases h
        obtain ⟨hlookup, hle⟩ := lookupMax_eq_some hmax
        have hpending : ∀ m, state.pending (pendingActionChat action) m = queue.lookup m :=
          fun m => by
            rw [TelegramState.pending, hqueue]
            rfl
        refine ⟨n, (hpending n).trans hlookup, fun m hm => ?_, hincoming, hprevious⟩
        rw [hpending] at hm
        exact hle m hm
      · cases h
    · cases h
  · cases h

end Pending

/-! ### What an action is made of -/

section Built

variable {transcripts : List (ℤ × Text)} {incoming : List Incoming} {action previous : PendingChatAction}
  {library : TelegramLibrary}

theorem strip_joinTexts {texts : List Text} (hne : texts ≠ []) :
    strip (joinTexts texts) = List.joinTrimmed isSpace pendingTurnSeparator texts := by
  unfold joinTexts
  split
  · next text =>
    change text.trim isSpace = _
    rcases eq_or_ne (text.trim isSpace) [] with hnil | hnil
    · simp [List.joinTrimmed, hnil]
    · simp [List.joinTrimmed, hnil, List.intercalate]
  · exact List.trim_joinTrimmed

/-- One text after the other is joined to the texts before. -/
theorem joinTexts_concat {texts : List Text} {text : Text} (hne : texts ≠ []) :
    joinTexts (texts ++ [text]) = mergedText (joinTexts texts) text := by
  have hjoin : joinTexts (texts ++ [text]) =
      List.joinTrimmed isSpace pendingTurnSeparator (texts ++ [text]) := by
    unfold joinTexts
    split
    · next heq =>
      have hlength := congrArg List.length heq
      have hpos := length_pos_of_ne_nil hne
      rw [length_append, length_singleton, length_singleton] at hlength
      omega
    · rfl
  rw [hjoin, List.joinTrimmed_concat, mergedText, strip_joinTexts hne]
  rfl

theorem BuiltFrom.mono {more : List (ℤ × Text)} (h : BuiltFrom transcripts incoming action) :
    BuiltFrom (transcripts ++ more) incoming action := by
  obtain ⟨⟨texts, hshown, htext⟩, hmedia⟩ := h
  refine ⟨⟨texts, hshown.imp fun u t hshow => ?_, htext⟩, hmedia⟩
  rcases hshow with hown | ⟨hvoice, hnone, hmem⟩
  · exact .inl hown
  · exact .inr ⟨hvoice, hnone, mem_append_left _ hmem⟩

theorem builtFrom_incomingOf (action : PendingChatAction) :
    BuiltFrom transcripts [incomingOf action] action :=
  ⟨⟨[(pendingActionParts action).text], .cons (.inl ⟨rfl, rfl⟩) .nil, rfl⟩, by simp [incomingOf]⟩

theorem isTurn_of_batchable (h : guardBatchable library action = true) : isTurn action = true := by
  cases action with
  | runPendingTurn pending | runPendingMediaTurn pending => rfl
  | deliverReply pending | leaveUnauthorizedChat pending => cases h

theorem voice_of_batchable (h : guardBatchable library action = true) :
    actionVoice action = none := by
  cases action with
  | runPendingTurn pending =>
    simp only [guardBatchable, Bool.and_eq_true, isNone_iff_eq_none] at h
    exact h.1.1
  | runPendingMediaTurn pending | deliverReply pending | leaveUnauthorizedChat pending => rfl

/-- What an action becomes that an earlier one is joined to. -/
theorem merged_facts (previous action : PendingChatAction) :
    pendingActionUpdateId (mergePendingActions previous action) = pendingActionUpdateId action ∧
      pendingActionChat (mergePendingActions previous action) = pendingActionChat action ∧
      isTurn (mergePendingActions previous action) = true ∧
      actionVoice (mergePendingActions previous action) = none ∧
      (pendingActionParts (mergePendingActions previous action)).text =
        mergedText (pendingActionParts previous).text (pendingActionParts action).text ∧
      (pendingActionParts (mergePendingActions previous action)).media =
        (pendingActionParts previous).media ++ (pendingActionParts action).media := by
  unfold mergePendingActions
  dsimp only
  split
  · next hnil => exact ⟨rfl, rfl, rfl, rfl, rfl, hnil.1.symm⟩
  · exact ⟨rfl, rfl, rfl, rfl, rfl, rfl⟩

/-- The joined action holds what both hold. -/
theorem BuiltFrom.merge (h : BuiltFrom transcripts incoming previous) (hne : incoming ≠ [])
    (hprevious : guardBatchable library previous = true)
    (haction : guardBatchable library action = true) :
    BuiltFrom transcripts (incoming ++ [incomingOf action])
      (mergePendingActions previous action) := by
  obtain ⟨-, -, -, hvoice, htext, hmedia⟩ := merged_facts previous action
  obtain ⟨⟨texts, hshown, hprevText⟩, hprevMedia⟩ := h
  have htexts : texts ≠ [] := by
    rintro rfl
    exact hne (forall₂_nil_right_iff.mp hshown)
  refine ⟨⟨texts ++ [(pendingActionParts action).text], ?_, ?_⟩, ?_⟩
  · rw [voice_of_batchable hprevious] at hshown
    rw [hvoice]
    exact rel_append hshown (.cons (.inl ⟨rfl, (voice_of_batchable haction).symm⟩) .nil)
  · rw [htext, hprevText, joinTexts_concat htexts]
  · rw [hmedia, hprevMedia, flatMap_append]
    simp [incomingOf]

end Built

/-! ### What holds between two steps -/

/-- The number is one of an update that was stored. -/
def TelegramWorld.Used (w : TelegramWorld) (n : ℤ) : Prop :=
  ∃ next, w.state.nextUpdateId = some next ∧ n < next

/-- A turn is made of the updates that are recorded under its number. -/
structure Made (w : TelegramWorld) (action : PendingChatAction) : Prop where
  used : w.Used (pendingActionUpdateId action)
  nonempty : w.batch (pendingActionUpdateId action) ≠ []
  ascending : (w.batch (pendingActionUpdateId action)).Pairwise fun a b => a.updateId < b.updateId
  members : ∀ u ∈ w.batch (pendingActionUpdateId action),
    u ∈ w.accepted ∧ u.chat = pendingActionChat action ∧
      u.updateId ≤ pendingActionUpdateId action
  built : BuiltFrom w.transcripts (w.batch (pendingActionUpdateId action)) action
  single : (actionVoice action).isSome → ∃ u, w.batch (pendingActionUpdateId action) = [u] ∧
    u.updateId = pendingActionUpdateId action

/-- What a worker has taken is the first of its queue, as long as it is there. -/
structure Taken (w : TelegramWorld) (chat : TelegramChatKey) (worker : TelegramWorker) : Prop where
  chat_eq : pendingActionChat worker.action = chat
  prompt : pendingActionUpdateId worker.prompt = pendingActionUpdateId worker.action ∧
    pendingActionChat worker.prompt = chat ∧ isTurn worker.prompt = isTurn worker.action
  used : w.Used (pendingActionUpdateId worker.action)
  least : ∀ n, (w.state.pending chat n).isSome → pendingActionUpdateId worker.action ≤ n
  same : ∀ b, w.state.pending chat (pendingActionUpdateId worker.action) = some b →
    isTurn b = isTurn worker.action
  made : isTurn worker.action = true → Made w worker.action ∧ Made w worker.prompt

structure TelegramInvariant (w : TelegramWorld) : Prop where
  keyed : ∀ chat n action, w.state.pending chat n = some action →
    pendingActionChat action = chat ∧ pendingActionUpdateId action = n ∧ w.Used n
  made : ∀ place action, w.turnAt place = some action → Made w action
  accepted : ∀ u ∈ w.accepted, w.Used u.updateId ∧ ∃! place, w.Holds u place
  queued : ∀ chat j k a b, w.state.pending chat j = some a → w.state.pending chat k = some b →
    isTurn a = true → isTurn b = true → j < k → ∀ u ∈ w.batch k, j < u.updateId
  before : ∀ run ∈ w.completed, ∀ k b, w.state.pending (pendingActionChat run) k = some b →
    isTurn b = true → ∀ u ∈ w.batch k, pendingActionUpdateId run < u.updateId
  sorted : w.completed.Pairwise fun a b => pendingActionChat a = pendingActionChat b →
    ∀ u ∈ w.batch (pendingActionUpdateId b), pendingActionUpdateId a < u.updateId
  turns : ∀ run ∈ w.completed, isTurn run = true
  workers : ∀ chat worker, w.workers.lookup chat = some (some worker) → Taken w chat worker

section Invariant

variable {w w' : TelegramWorld} {library : TelegramLibrary} {action : PendingChatAction}
  {chat : TelegramChatKey} {n : ℤ} {u : Incoming} {place : Place}

theorem turnAt_pending : w.turnAt (.pending chat n) = some action ↔
    w.state.pending chat n = some action ∧ isTurn action = true := by
  rw [TelegramWorld.turnAt, filter_eq_some_iff]

theorem turnAt_deadLetter {index : ℕ} : w.turnAt (.deadLetter index) = some action ↔
    w.state.deadLetters[index]?.bind (·.deadLetterAction) = some action ∧
      isTurn action = true := by
  rw [TelegramWorld.turnAt, filter_eq_some_iff]

theorem turnAt_completed {index : ℕ} : w.turnAt (.completed index) = some action ↔
    w.completed[index]? = some action ∧ isTurn action = true := by
  rw [TelegramWorld.turnAt, filter_eq_some_iff]

/-- The one place of an update changes. -/
theorem existsUnique_move {P P' : Place → Prop} (old new : Place) (h : ∃! place, P place)
    (hnew : ¬ P new) (hmoved : P' new ↔ P old) (hold : ¬ P' old)
    (hrest : ∀ place, place ≠ old → place ≠ new → (P' place ↔ P place)) : ∃! place, P' place := by
  obtain ⟨place, hplace, hunique⟩ := h
  by_cases heq : place = old
  · subst heq
    refine ⟨new, hmoved.mpr hplace, fun other hother => ?_⟩
    by_contra hne
    have hnot : other ≠ place := fun h => hold (h ▸ hother)
    exact hnot (hunique other ((hrest other hnot hne).mp hother))
  · have hne : place ≠ new := fun h => hnew (h ▸ hplace)
    refine ⟨place, (hrest place heq hne).mpr hplace, fun other hother => ?_⟩
    have hnot : other ≠ old := fun h => hold (h ▸ hother)
    by_cases hmove : other = new
    · subst hmove
      exact absurd (hunique old (hmoved.mp hother)).symm heq
    · exact hunique other ((hrest other hnot hmove).mp hother)

theorem Made.congr (h : Made w action) (hstate : w'.state.nextUpdateId = w.state.nextUpdateId)
    (hbatch : w'.batch = w.batch) (haccepted : w'.accepted = w.accepted)
    (htranscripts : w'.transcripts = w.transcripts) : Made w' action := by
  obtain ⟨⟨next, hnext, hlt⟩, hnonempty, hascending, hmembers, hbuilt, hsingle⟩ := h
  rw [← hbatch] at hnonempty hascending hmembers hbuilt hsingle
  rw [← haccepted] at hmembers
  rw [← htranscripts] at hbuilt
  exact ⟨⟨next, hstate.trans hnext, hlt⟩, hnonempty, hascending, hmembers, hbuilt, hsingle⟩

theorem holds_congr (hturn : w'.turnAt place = w.turnAt place) (hbatch : w'.batch = w.batch) :
    w'.Holds u place ↔ w.Holds u place := by
  rw [TelegramWorld.Holds, TelegramWorld.Holds, hturn, hbatch]

theorem TelegramInvariant.made_of_completed (h : TelegramInvariant w) (hmem : action ∈ w.completed) :
    Made w action := by
  obtain ⟨index, hindex⟩ := mem_iff_getElem?.mp hmem
  exact h.made (.completed index) action (turnAt_completed.mpr ⟨hindex, h.turns action hmem⟩)

theorem telegramInvariant_idle : TelegramInvariant idleGateway where
  keyed := fun chat n action h => by cases h
  made := fun place action h => by
    cases place with
    | pending chat n => cases (turnAt_pending.mp h).1
    | deadLetter index => simp [turnAt_deadLetter, idleGateway, emptyTelegramState] at h
    | completed index => simp [turnAt_completed, idleGateway] at h
  accepted := fun u hu => by cases hu
  queued := fun chat j k a b ha => by cases ha
  before := fun run hrun => by cases hrun
  sorted := .nil
  turns := fun run hrun => by cases hrun
  workers := fun chat worker h => by cases h

end Invariant

section Workers

variable {w w' : TelegramWorld} {library : TelegramLibrary} {action : PendingChatAction}
  {chat : TelegramChatKey} {worker : TelegramWorker}

/-- What the queues, the letters and the runs hold is left alone. -/
theorem TelegramInvariant.frame (h : TelegramInvariant w) {state : TelegramState}
    {workers : FinMap TelegramChatKey (Option TelegramWorker)}
    (hpending : state.pending = w.state.pending) (hdead : state.deadLetters = w.state.deadLetters)
    (hused : ∀ n, w.Used n → TelegramWorld.Used { w with state, workers } n)
    (hworkers : ∀ chat worker, workers.lookup chat = some (some worker) → Taken w chat worker) :
    TelegramInvariant { w with state, workers } := by
  have hmade : ∀ action, Made w action → Made { w with state, workers } action :=
    fun action hmade => ⟨hused _ hmade.used, hmade.nonempty, hmade.ascending, hmade.members,
      hmade.built, hmade.single⟩
  have hturnAt : ∀ place,
      TelegramWorld.turnAt { w with state, workers } place = w.turnAt place := by
    intro place
    cases place with
    | pending other n =>
      exact congrArg (Option.filter isTurn) (congrFun (congrFun hpending other) n)
    | deadLetter index =>
      exact congrArg (fun letters : List TelegramDeadLetter =>
        (letters[index]?.bind (·.deadLetterAction)).filter isTurn) hdead
    | completed index => rfl
  refine ⟨fun chat n a ha => ?_, fun place a hplace => hmade a (h.made place a (hturnAt place ▸ hplace)),
    fun u hu => ?_, ?_, ?_, h.sorted, h.turns, fun chat worker hlookup => ?_⟩
  · obtain ⟨hchat, hnumber, hn⟩ := h.keyed chat n a (hpending ▸ ha)
    exact ⟨hchat, hnumber, hused n hn⟩
  · obtain ⟨hn, place, hplace, honly⟩ := h.accepted u hu
    exact ⟨hused _ hn, place, (holds_congr (hturnAt place) rfl).mpr hplace, fun other hother =>
      honly other ((holds_congr (hturnAt other) rfl).mp hother)⟩
  · dsimp only
    rw [hpending]
    exact h.queued
  · dsimp only
    rw [hpending]
    exact h.before
  · obtain ⟨hchat, hprompt, hn, hleast, hsame, htaken⟩ := hworkers chat worker hlookup
    exact ⟨hchat, hprompt, hused _ hn, hpending ▸ hleast, hpending ▸ hsame,
      fun hturn => ⟨hmade _ (htaken hturn).1, hmade _ (htaken hturn).2⟩⟩

/-- Only the workers change. -/
theorem TelegramInvariant.withWorkers (h : TelegramInvariant w)
    {workers : FinMap TelegramChatKey (Option TelegramWorker)}
    (hworkers : ∀ chat worker, workers.lookup chat = some (some worker) → Taken w chat worker) :
    TelegramInvariant { w with workers } :=
  h.frame rfl rfl (fun _ hn => hn) hworkers

/-- The worker of a chat gets something else to do, or nothing. -/
theorem TelegramInvariant.taken_insert (h : TelegramInvariant w) (chat : TelegramChatKey)
    {o : Option TelegramWorker}
    (ho : ∀ worker, o = some worker → Taken w chat worker) :
    ∀ other worker, (w.workers.insert chat o).lookup other = some (some worker) →
      Taken w other worker := by
  intro other worker hlookup
  rw [lookup_insert] at hlookup
  split at hlookup
  · next heq =>
    subst heq
    exact ho worker (some.inj hlookup)
  · exact h.workers other worker hlookup

/-- A worker takes the action of the least number. -/
theorem taken_of_next (h : TelegramInvariant w) (hnext : nextPendingAction chat w.state = some action) :
    Taken w chat ⟨action, action⟩ := by
  obtain ⟨n, hpending, hleast⟩ := nextPendingAction_eq_some hnext
  obtain ⟨hchat, rfl, hused⟩ := h.keyed chat n action hpending
  have hmade : isTurn action = true → Made w action := fun hturn =>
    h.made _ _ (turnAt_pending.mpr ⟨hpending, hturn⟩)
  refine ⟨hchat, ⟨rfl, hchat, rfl⟩, hused, hleast, fun b hb => ?_,
    fun hturn => ⟨hmade hturn, hmade hturn⟩⟩
  rw [hpending, some.injEq] at hb
  rw [hb]

end Workers

/-! ### An update is stored -/

section Storing

variable {w : TelegramWorld} {library : TelegramLibrary} {updateId : ℤ}
  {action : TelegramUpdateAction} {incoming : PendingChatAction}

theorem incomingAction_facts (h : incomingAction updateId action = some incoming) :
    pendingActionUpdateId incoming = updateId ∧ isTurn incoming = true := by
  cases action with
  | queueTurn messageId key text voice =>
    cases h
    exact ⟨rfl, rfl⟩
  | queueMediaTurn pending =>
    rw [incomingAction] at h
    split at h
    · cases h
    · cases h
      exact ⟨rfl, rfl⟩
  | _ => cases h

/-- An update that asks for a turn is queued as its action. -/
theorem storeUpdateAction_eq (h : incomingAction updateId action = some incoming)
    (hnew : updateAlreadyStored updateId w.state = false) :
    storeUpdateAction library updateId action w.state =
      advanceOffset updateId (authorizeGroupKey (pendingActionChat incoming)
        (enqueueIncomingAction library incoming w.state)) := by
  unfold storeUpdateAction
  rw [hnew, if_neg (by decide)]
  cases action with
  | queueTurn messageId key text voice =>
    cases h
    rfl
  | queueMediaTurn pending =>
    rw [incomingAction] at h
    split at h
    · cases h
    · next hedited =>
      cases h
      dsimp only
      rw [if_neg hedited]
      rfl
  | _ => cases h

/-- The number of a new update is beyond those that were used, and nothing is pending under it. -/
theorem fresh_of_not_stored (hnew : updateAlreadyStored updateId w.state = false) :
    ¬ w.Used updateId ∧ ∀ chat, w.state.pending chat updateId = none := by
  simp only [updateAlreadyStored, Bool.or_eq_false_iff] at hnew
  obtain ⟨⟨hnext, hqueues⟩, -⟩ := hnew
  refine ⟨fun ⟨next, heq, hlt⟩ => ?_, fun chat => ?_⟩
  · rw [heq] at hnext
    simp [hlt] at hnext
  · rw [TelegramState.pending]
    cases hqueue : w.state.pendingQueues.lookup chat with
    | none => rfl
    | some queue =>
      rw [List.any_eq_false] at hqueues
      have hnot := hqueues queue (mem_elems.mpr ⟨chat, hqueue⟩)
      simpa using hnot

/-- What is queued for an update: its own action, or the newest action of the chat joined to it. -/
structure Queued (w w' : TelegramWorld) (updateId : ℤ) (incoming : PendingChatAction)
    (added : PendingChatAction) (removed : Option ℤ) : Prop where
  turn : isTurn added = true
  number : pendingActionUpdateId added = updateId
  chat : pendingActionChat added = pendingActionChat incoming
  pending : ∀ chat n, w'.state.pending chat n =
    if chat = pendingActionChat incoming ∧ n = updateId then some added
    else if chat = pendingActionChat incoming ∧ removed = some n then none
    else w.state.pending chat n
  deadLetters : w'.state.deadLetters = w.state.deadLetters
  offset : w'.Used updateId ∧ ∀ n, w.Used n → w'.Used n
  batch : w'.batch = Function.update w.batch updateId
    (removed.elim [] w.batch ++ [incomingOf incoming])
  accepted : w'.accepted = w.accepted ++ [incomingOf incoming]
  others : w'.workers = w.workers ∧ w'.transcripts = w.transcripts ∧ w'.completed = w.completed
  joined : ∀ n, removed = some n → ∃ previous,
    w.state.pending (pendingActionChat incoming) n = some previous ∧ isTurn previous = true ∧
      ∀ m, (w.state.pending (pendingActionChat incoming) m).isSome → m ≤ n
  built : BuiltFrom w.transcripts (removed.elim [] w.batch ++ [incomingOf incoming]) added
  single : (actionVoice added).isSome → removed = none

theorem used_advanceOffset (w : TelegramWorld) (updateId : ℤ) {state : TelegramState}
    (hstate : state.nextUpdateId = w.state.nextUpdateId)
    {w' : TelegramWorld} (hw' : w'.state = advanceOffset updateId state) :
    w'.Used updateId ∧ ∀ n, w.Used n → w'.Used n := by
  have hnext : w'.state.nextUpdateId =
      some (max (updateId + 1) (w.state.nextUpdateId.getD 0)) := by
    rw [hw', advanceOffset, hstate]
  refine ⟨⟨_, hnext, ?_⟩, fun n ⟨next, heq, hlt⟩ => ⟨_, hnext, ?_⟩⟩
  · exact lt_of_lt_of_le (lt_add_one updateId) (le_max_left _ _)
  · rw [heq]
    exact lt_of_lt_of_le hlt (le_max_right _ _)

theorem enqueueIncomingAction_fields (library : TelegramLibrary) (incoming : PendingChatAction)
    (state : TelegramState) :
    (enqueueIncomingAction library incoming state).nextUpdateId = state.nextUpdateId ∧
      (enqueueIncomingAction library incoming state).deadLetters = state.deadLetters := by
  unfold enqueueIncomingAction
  split <;> exact ⟨rfl, rfl⟩

theorem authorizeGroupKey_fields (key : TelegramChatKey) (state : TelegramState) :
    (authorizeGroupKey key state).nextUpdateId = state.nextUpdateId ∧
      (authorizeGroupKey key state).deadLetters = state.deadLetters := by
  unfold authorizeGroupKey
  split <;> exact ⟨rfl, rfl⟩

theorem queued_of_store (h : TelegramInvariant w)
    (hincoming : incomingAction updateId action = some incoming)
    (hnew : updateAlreadyStored updateId w.state = false) :
    ∃ added removed, Queued w (w.store library updateId action incoming) updateId incoming added
      removed := by
  obtain ⟨hnumber, hturn⟩ := incomingAction_facts hincoming
  have hstate : (w.store library updateId action incoming).state =
      advanceOffset updateId (authorizeGroupKey (pendingActionChat incoming)
        (enqueueIncomingAction library incoming w.state)) := by
    rw [TelegramWorld.store, if_neg (by rw [hnew]; decide)]
    exact storeUpdateAction_eq hincoming hnew
  have hworld : w.store library updateId action incoming =
      { w with
        state := storeUpdateAction library updateId action w.state
        accepted := w.accepted ++ [incomingOf incoming]
        batch := Function.update w.batch updateId
          ((previousBatchableAction library incoming w.state).elim []
            (fun previous => w.batch (pendingActionUpdateId previous)) ++
              [incomingOf incoming]) } := by
    rw [TelegramWorld.store, if_neg (by rw [hnew]; decide)]
  have hfields := enqueueIncomingAction_fields library incoming w.state
  have hauthorized := authorizeGroupKey_fields (pendingActionChat incoming)
    (enqueueIncomingAction library incoming w.state)
  have hoffset := used_advanceOffset w updateId (hauthorized.1.trans hfields.1) hstate
  have hdead : (w.store library updateId action incoming).state.deadLetters =
      w.state.deadLetters := by
    rw [hstate]
    exact hauthorized.2.trans hfields.2
  have hpending : ∀ chat n, (w.store library updateId action incoming).state.pending chat n =
      (enqueueIncomingAction library incoming w.state).pending chat n := by
    intro chat n
    rw [hstate, pending_advanceOffset, pending_authorizeGroupKey]
  cases hprevious : previousBatchableAction library incoming w.state with
  | none =>
    refine ⟨incoming, none, hturn, hnumber, rfl, fun chat n => ?_, hdead, hoffset, ?_, ?_, ?_,
      fun n heq => (by cases heq), builtFrom_incomingOf incoming, fun _ => rfl⟩
    · rw [hpending, enqueueIncomingAction, hprevious]
      dsimp only
      rw [pending_enqueue, hnumber]
      simp
    · rw [hworld, hprevious]
      rfl
    · rw [hworld]
    · rw [hworld]
      exact ⟨rfl, rfl, rfl⟩
  | some previous =>
    obtain ⟨n, hlookup, hmax, hbatchable, hbefore⟩ := previousBatchableAction_eq_some hprevious
    obtain ⟨hchat, rfl, hused⟩ := h.keyed _ _ _ hlookup
    obtain ⟨hmergedId, hmergedChat, hmergedTurn, hmergedVoice, -, -⟩ := merged_facts previous incoming
    have hmade := h.made _ _ (turnAt_pending.mpr ⟨hlookup, isTurn_of_batchable hbefore⟩)
    refine ⟨mergePendingActions previous incoming, some (pendingActionUpdateId previous),
      hmergedTurn, hmergedId.trans hnumber, hmergedChat, fun chat m => ?_, hdead, hoffset, ?_, ?_,
      ?_, ?_, ?_, ?_⟩
    · rw [hpending, enqueueIncomingAction, hprevious]
      dsimp only
      rw [pending_enqueue, pending_delete, hmergedId, hmergedChat, hnumber, hchat]
      by_cases hc : chat = pendingActionChat incoming
      · simp only [hc, true_and, some.injEq]
        by_cases hm : m = updateId
        · rw [if_pos hm, if_pos hm]
        · rw [if_neg hm, if_neg hm]
          exact if_congr eq_comm rfl rfl
      · simp [hc]
    · rw [hworld, hprevious]
      rfl
    · rw [hworld]
    · rw [hworld]
      exact ⟨rfl, rfl, rfl⟩
    · intro m heq
      cases heq
      exact ⟨previous, hlookup, isTurn_of_batchable hbefore, hmax⟩
    · exact hmade.built.merge hmade.nonempty hbefore hbatchable
    · intro hvoice
      rw [hmergedVoice] at hvoice
      cases hvoice

end Storing

section Stored

variable {w w' : TelegramWorld} {updateId : ℤ} {incoming added : PendingChatAction}
  {removed : Option ℤ} {chat : TelegramChatKey} {n : ℤ} {action : PendingChatAction} {place : Place}
  {u : Incoming}

section Frame

variable (h : TelegramInvariant w) (hq : Queued w w' updateId incoming added removed)
  (hfresh : ¬ w.Used updateId)

include hfresh in
/-- The number of a new update is above those that were used. -/
theorem lt_of_used (hused : w.Used n) : n < updateId := by
  obtain ⟨next, hnext, hlt⟩ := hused
  have hbeyond : next ≤ updateId := not_lt.mp fun hlt => hfresh ⟨next, hnext, hlt⟩
  omega

include hq hfresh in
theorem Queued.batch_of_used (hused : w.Used n) : w'.batch n = w.batch n := by
  rw [hq.batch, update_of_ne (lt_of_used hfresh hused).ne]

include hq in
/-- The added action is made of what was joined, and of the update. -/
theorem Queued.mem_batch :
    u ∈ w'.batch updateId ↔ u ∈ removed.elim [] w.batch ∨ u = incomingOf incoming := by
  rw [hq.batch, update_self, mem_append, mem_singleton]

include hq in
/-- What was joined was the newest pending turn of the chat. -/
theorem Queued.joined_of_mem (hu : u ∈ removed.elim [] w.batch) :
    ∃ k previous, removed = some k ∧
      w.state.pending (pendingActionChat incoming) k = some previous ∧ isTurn previous = true ∧
      (∀ m, (w.state.pending (pendingActionChat incoming) m).isSome → m ≤ k) ∧ u ∈ w.batch k := by
  cases hremoved : removed with
  | none =>
    rw [hremoved] at hu
    cases hu
  | some k =>
    obtain ⟨previous, hprevious, hturn, hmax⟩ := hq.joined k hremoved
    rw [hremoved] at hu
    exact ⟨k, previous, rfl, hprevious, hturn, hmax, hu⟩

include hq hfresh in
theorem Queued.made_of_made (hmade : Made w action) : Made w' action := by
  have hbatch := hq.batch_of_used hfresh hmade.used
  refine ⟨hq.offset.2 _ hmade.used, ?_, ?_, fun u hu => ?_, ?_, ?_⟩
  · rw [hbatch]
    exact hmade.nonempty
  · rw [hbatch]
    exact hmade.ascending
  · rw [hbatch] at hu
    rw [hq.accepted]
    exact ⟨mem_append_left _ (hmade.members u hu).1, (hmade.members u hu).2⟩
  · rw [hbatch, hq.others.2.1]
    exact hmade.built
  · rw [hbatch]
    exact hmade.single

include hq in
/-- Elsewhere the turns stay where they were. -/
theorem Queued.turnAt_of_ne (hnew : place ≠ .pending (pendingActionChat incoming) updateId)
    (hold : ∀ k, removed = some k → place ≠ .pending (pendingActionChat incoming) k) :
    w'.turnAt place = w.turnAt place := by
  cases place with
  | pending chat k =>
    change (w'.state.pending chat k).filter isTurn = (w.state.pending chat k).filter isTurn
    rw [hq.pending]
    have hnot : ¬(chat = pendingActionChat incoming ∧ k = updateId) := by
      rintro ⟨rfl, rfl⟩
      exact hnew rfl
    have hkeep : ¬(chat = pendingActionChat incoming ∧ removed = some k) := by
      rintro ⟨rfl, hk⟩
      exact hold k hk rfl
    rw [if_neg hnot, if_neg hkeep]
  | deadLetter index =>
    change (w'.state.deadLetters[index]?.bind (·.deadLetterAction)).filter isTurn = _
    rw [hq.deadLetters]
    rfl
  | completed index =>
    change (w'.completed[index]?).filter isTurn = _
    rw [hq.others.2.2]
    rfl

include hq in
theorem Queued.turnAt_added :
    w'.turnAt (.pending (pendingActionChat incoming) updateId) = some added := by
  rw [turnAt_pending, hq.pending, if_pos ⟨rfl, rfl⟩]
  exact ⟨rfl, hq.turn⟩

include hq in
theorem Queued.turnAt_removed {k : ℤ} (hk : removed = some k) (hne : k ≠ updateId) :
    w'.turnAt (.pending (pendingActionChat incoming) k) = none := by
  change (w'.state.pending _ _).filter isTurn = none
  rw [hq.pending, if_neg fun heq => hne heq.2, if_pos ⟨rfl, hk⟩]
  rfl

include h hq hfresh in
/-- The action that is queued is made of the update and of what was joined. -/
theorem Queued.made_added (hnumber : pendingActionUpdateId incoming = updateId) :
    Made w' added := by
  have hbatch : w'.batch (pendingActionUpdateId added) =
      removed.elim [] w.batch ++ [incomingOf incoming] := by
    rw [hq.batch, hq.number, update_self]
  -- what was joined is older than the update
  have hjoined : ∀ u ∈ removed.elim [] w.batch,
      u ∈ w.accepted ∧ u.chat = pendingActionChat incoming ∧ u.updateId < updateId := by
    intro u hu
    obtain ⟨k, previous, -, hprevious, hturn, -, hu⟩ := hq.joined_of_mem hu
    obtain ⟨hchat, rfl, hused⟩ := h.keyed _ _ _ hprevious
    obtain ⟨haccepted, huchat, hle⟩ :=
      (h.made _ _ (turnAt_pending.mpr ⟨hprevious, hturn⟩)).members u hu
    exact ⟨haccepted, huchat.trans hchat, hle.trans_lt (lt_of_used hfresh hused)⟩
  refine ⟨hq.number ▸ hq.offset.1, ?_, ?_, ?_, ?_, fun hvoice => ?_⟩
  · rw [hbatch]
    simp
  · rw [hbatch, pairwise_append]
    refine ⟨?_, pairwise_singleton _ _, fun a ha b hb => ?_⟩
    · cases hremoved : removed with
      | none => exact List.Pairwise.nil
      | some k =>
        obtain ⟨previous, hprevious, hturn, -⟩ := hq.joined k hremoved
        obtain ⟨-, rfl, -⟩ := h.keyed _ _ _ hprevious
        exact (h.made _ _ (turnAt_pending.mpr ⟨hprevious, hturn⟩)).ascending
    · rw [mem_singleton.mp hb]
      change a.updateId < pendingActionUpdateId incoming
      rw [hnumber]
      exact (hjoined a ha).2.2
  · intro u hu
    rw [hq.number, hq.mem_batch] at hu
    rw [hq.accepted, hq.chat, hq.number]
    rcases hu with hu | rfl
    · obtain ⟨haccepted, hchat, hlt⟩ := hjoined u hu
      exact ⟨mem_append_left _ haccepted, hchat, hlt.le⟩
    · exact ⟨mem_append_right _ (mem_singleton.mpr rfl), rfl, hnumber.le⟩
  · rw [hbatch, hq.others.2.1]
    exact hq.built
  · refine ⟨incomingOf incoming, ?_, ?_⟩
    · rw [hbatch, hq.single hvoice]
      rfl
    · exact hnumber.trans hq.number.symm

include h hq hfresh in
/-- An update that was joined moves to the added action, and the others stay where they are. -/
theorem Queued.holds_iff : w'.Holds u place ↔
    (place = .pending (pendingActionChat incoming) updateId ∧
      (u ∈ removed.elim [] w.batch ∨ u = incomingOf incoming)) ∨
    (place ≠ .pending (pendingActionChat incoming) updateId ∧
      (∀ k, removed = some k → place ≠ .pending (pendingActionChat incoming) k) ∧
      w.Holds u place) := by
  by_cases hplace : place = .pending (pendingActionChat incoming) updateId
  · rw [← hq.mem_batch, hplace, TelegramWorld.Holds, hq.turnAt_added]
    simp [hq.number]
  · by_cases hkeep : ∀ k, removed = some k → place ≠ .pending (pendingActionChat incoming) k
    · have hbatch : ∀ {action}, w.turnAt place = some action →
          w'.batch (pendingActionUpdateId action) = w.batch (pendingActionUpdateId action) :=
        fun hturn => hq.batch_of_used hfresh (h.made place _ hturn).used
      rw [TelegramWorld.Holds, TelegramWorld.Holds, hq.turnAt_of_ne hplace hkeep]
      constructor
      · rintro ⟨action, hturn, hmem⟩
        exact .inr ⟨hplace, hkeep, action, hturn, hbatch hturn ▸ hmem⟩
      · rintro (⟨heq, -⟩ | ⟨-, -, action, hturn, hmem⟩)
        · exact absurd heq hplace
        · exact ⟨action, hturn, (hbatch hturn).symm ▸ hmem⟩
    · refine iff_of_false ?_ fun hold => hold.elim (hplace ·.1) (hkeep ·.2.1)
      rintro ⟨action, hturn, -⟩
      simp only [not_forall, ne_eq, not_not] at hkeep
      obtain ⟨k, hk, rfl⟩ := hkeep
      rw [hq.turnAt_removed hk fun heq => hplace (by rw [heq])] at hturn
      cases hturn

end Frame

/-- A new update leaves what holds between two steps. -/
theorem TelegramInvariant.queue (h : TelegramInvariant w)
    (hq : Queued w w' updateId incoming added removed) (hfresh : ¬ w.Used updateId)
    (hvacant : ∀ chat, w.state.pending chat updateId = none)
    (hnumber : pendingActionUpdateId incoming = updateId) : TelegramInvariant w' := by
  have hold : ∀ {m}, w.Used m → m < updateId := lt_of_used hfresh
  have hbatch : ∀ {m}, w.Used m → w'.batch m = w.batch m := hq.batch_of_used hfresh
  -- what is pending afterwards is the action that was added, or was pending before
  have hcases : ∀ {chat n a}, w'.state.pending chat n = some a →
      (chat = pendingActionChat incoming ∧ n = updateId ∧ a = added) ∨
        (w.state.pending chat n = some a ∧ n ≠ updateId ∧
          ¬(chat = pendingActionChat incoming ∧ removed = some n)) := by
    intro chat n a hpending
    rw [hq.pending] at hpending
    split at hpending
    · next heq => exact .inl ⟨heq.1, heq.2, (some.inj hpending).symm⟩
    · split at hpending
      · cases hpending
      · next hnot =>
        have hne : n ≠ updateId := by
          rintro rfl
          rw [hvacant] at hpending
          cases hpending
        exact .inr ⟨hpending, hne, hnot⟩
  have hmade : ∀ place action, w'.turnAt place = some action → Made w' action := by
    intro place action hturn
    by_cases hplace : place = .pending (pendingActionChat incoming) updateId
    · subst hplace
      rw [hq.turnAt_added, some.injEq] at hturn
      exact hturn ▸ hq.made_added h hfresh hnumber
    · by_cases hremoved : ∃ k, removed = some k ∧
          place = .pending (pendingActionChat incoming) k
      · obtain ⟨k, hk, rfl⟩ := hremoved
        rw [hq.turnAt_removed hk (fun heq => hplace (by rw [heq]))] at hturn
        cases hturn
      · rw [hq.turnAt_of_ne hplace fun k hk heq => hremoved ⟨k, hk, heq⟩] at hturn
        exact hq.made_of_made hfresh (h.made place action hturn)
  -- members of what was added are later than every turn that stays before it
  have hafter : ∀ j a, w.state.pending (pendingActionChat incoming) j = some a → isTurn a = true →
      removed ≠ some j → ∀ u ∈ w'.batch updateId, j < u.updateId := by
    intro j a ha hturn hne u hu
    rcases hq.mem_batch.mp hu with hu | rfl
    · obtain ⟨k, previous, hremoved, hprevious, hprevTurn, hmax, hu⟩ := hq.joined_of_mem hu
      have hle : j ≤ k := hmax j (by rw [ha]; rfl)
      have hjk : j ≠ k := fun heq => hne (heq ▸ hremoved)
      exact h.queued _ j k a previous ha hprevious hturn hprevTurn (lt_of_le_of_ne hle hjk) u hu
    · exact (hold (h.keyed _ _ _ ha).2.2).trans_eq hnumber.symm
  have hholds : ∀ u place, w'.Holds u place ↔ _ := fun u place => hq.holds_iff h hfresh
  refine ⟨fun chat n a hpending => ?_, hmade, fun u hu => ?_, ?_, ?_, ?_, ?_, ?_⟩
  · rcases hcases hpending with ⟨rfl, rfl, rfl⟩ | ⟨hpending, -, -⟩
    · exact ⟨hq.chat, hq.number, hq.offset.1⟩
    · obtain ⟨hchat, hn, hused⟩ := h.keyed chat n a hpending
      exact ⟨hchat, hn, hq.offset.2 _ hused⟩
  · rw [hq.accepted] at hu
    rcases mem_append.mp hu with hu | hu
    · obtain ⟨hused, place, hplace, honly⟩ := h.accepted u hu
      refine ⟨hq.offset.2 _ hused, ?_⟩
      have hne : u ≠ incomingOf incoming := by
        rintro rfl
        exact hfresh (hnumber ▸ hused)
      by_cases hjoined : u ∈ removed.elim [] w.batch
      · refine ⟨_, (hholds u _).mpr (.inl ⟨rfl, .inl hjoined⟩), fun other hother => ?_⟩
        obtain ⟨k, previous, hremoved, hprevious, hturn, -, hu⟩ := hq.joined_of_mem hjoined
        obtain ⟨-, rfl, -⟩ := h.keyed _ _ _ hprevious
        rcases (hholds u other).mp hother with ⟨heq, -⟩ | ⟨-, hkeep, hother⟩
        · exact heq
        · have hfrom := honly _ ⟨previous, turnAt_pending.mpr ⟨hprevious, hturn⟩, hu⟩
          exact absurd ((honly other hother).trans hfrom.symm) (hkeep _ hremoved)
      · refine ⟨place, (hholds u place).mpr (.inr ⟨?_, ?_, hplace⟩), fun other hother => ?_⟩
        · rintro rfl
          obtain ⟨action, hturn, -⟩ := hplace
          rw [turnAt_pending, hvacant] at hturn
          cases hturn.1
        · rintro k hremoved rfl
          obtain ⟨action, hturn, hmem⟩ := hplace
          obtain ⟨-, rfl, -⟩ := h.keyed _ _ _ (turnAt_pending.mp hturn).1
          rw [hremoved] at hjoined
          exact hjoined hmem
        · rcases (hholds u other).mp hother with ⟨-, hmem | hnew⟩ | ⟨-, -, hother⟩
          · exact absurd hmem hjoined
          · exact absurd hnew hne
          · exact honly other hother
    · rw [mem_singleton.mp hu]
      refine ⟨?_, _, (hholds _ _).mpr (.inl ⟨rfl, .inr rfl⟩), fun other hother => ?_⟩
      · change w'.Used (pendingActionUpdateId incoming)
        rw [hnumber]
        exact hq.offset.1
      · rcases (hholds _ other).mp hother with ⟨heq, -⟩ | ⟨-, -, action, hturn, hmem⟩
        · exact heq
        · have hused := (h.accepted _ ((h.made other action hturn).members _ hmem).1).1
          exact absurd (hnumber ▸ hused) hfresh
  · intro chat j k a b ha hb hta htb hlt u hu
    rcases hcases hb with ⟨rfl, rfl, rfl⟩ | ⟨hb, hkne, -⟩
    · rcases hcases ha with ⟨-, rfl, -⟩ | ⟨ha, -, hkeep⟩
      · omega
      · exact hafter j a ha hta (fun heq => hkeep ⟨rfl, heq⟩) u hu
    · have hused := (h.keyed _ _ _ hb).2.2
      rcases hcases ha with ⟨-, rfl, -⟩ | ⟨ha, -, -⟩
      · have hkold := hold hused
        omega
      · rw [hbatch hused] at hu
        exact h.queued chat j k a b ha hb hta htb hlt u hu
  · intro run hrun k b hb htb u hu
    rw [hq.others.2.2] at hrun
    rcases hcases hb with ⟨hchat, rfl, rfl⟩ | ⟨hb, -, -⟩
    · rcases hq.mem_batch.mp hu with hu | rfl
      · obtain ⟨k, previous, -, hprevious, hturn, -, hu⟩ := hq.joined_of_mem hu
        rw [← hchat] at hprevious
        exact h.before run hrun k previous hprevious hturn u hu
      · exact (hold (h.made_of_completed hrun).used).trans_eq hnumber.symm
    · rw [hbatch (h.keyed _ _ _ hb).2.2] at hu
      exact h.before run hrun k b hb htb u hu
  · rw [hq.others.2.2]
    refine h.sorted.imp_of_mem fun {a b} _ hb hsorted hchat u hu => ?_
    rw [hbatch (h.made_of_completed hb).used] at hu
    exact hsorted hchat u hu
  · intro run hrun
    rw [hq.others.2.2] at hrun
    exact h.turns run hrun
  · intro chat worker hlookup
    rw [hq.others.1] at hlookup
    have htaken := h.workers chat worker hlookup
    refine ⟨htaken.chat_eq, htaken.prompt, hq.offset.2 _ htaken.used, fun m hm => ?_, fun b hb => ?_,
      fun hturn => ⟨hq.made_of_made hfresh (htaken.made hturn).1,
        hq.made_of_made hfresh (htaken.made hturn).2⟩⟩
    · obtain ⟨a, ha⟩ := isSome_iff_exists.mp hm
      rcases hcases ha with ⟨-, rfl, -⟩ | ⟨ha, -, -⟩
      · exact (hold htaken.used).le
      · exact htaken.least m (by rw [ha]; rfl)
    · rcases hcases hb with ⟨-, heq, -⟩ | ⟨hb, -, -⟩
      · exact absurd (heq ▸ htaken.used) hfresh
      · exact htaken.same b hb

end Stored

/-! ### A worker ends what it has taken -/

/-- What the end of an action does to the queues: in its place is nothing, or an answer. -/
structure Removed (state state' : TelegramState) (action : PendingChatAction)
    (answer : Option PendingChatAction) : Prop where
  pending : ∀ chat n, state'.pending chat n =
    if chat = pendingActionChat action ∧ n = pendingActionUpdateId action then answer
    else state.pending chat n
  offset : state'.nextUpdateId = state.nextUpdateId
  answer : ∀ reply, answer = some reply → isTurn reply = false ∧
    pendingActionChat reply = pendingActionChat action ∧
    pendingActionUpdateId reply = pendingActionUpdateId action

section Removed

variable {library : TelegramLibrary} {state : TelegramState} {action : PendingChatAction}

/-- An answer takes the place of the action. -/
theorem removed_enqueue {state' : TelegramState} {reply : TelegramPendingReply}
    (h : Removed state state' action none) (hchat : reply.pendingChat = pendingActionChat action)
    (hnumber : reply.pendingUpdateId = pendingActionUpdateId action) :
    Removed state (enqueuePendingAction (.deliverReply reply) state') action
      (some (.deliverReply reply)) := by
  refine ⟨fun chat n => ?_, h.offset, fun other heq => ?_⟩
  · rw [pending_enqueue, h.pending]
    change (if chat = reply.pendingChat ∧ n = reply.pendingUpdateId then _ else _) = _
    rw [hchat, hnumber]
    split
    · rfl
    · rfl
  · cases heq
    exact ⟨rfl, hchat, hnumber⟩

theorem removed_complete (action : PendingChatAction) (state : TelegramState) :
    Removed state (completePendingAction action state) action none :=
  ⟨fun _ _ => pending_complete, rfl, fun _ heq => by cases heq⟩

theorem removed_performed (library : TelegramLibrary) (action : PendingChatAction)
    (response : TelegramTurnResponse) (state : TelegramState) :
    (performed library action response state).deadLetters = state.deadLetters ∧
      ∃ answer, Removed state (performed library action response state) action answer := by
  have hreply : ∀ chat updateId messageId, chat = pendingActionChat action →
      updateId = pendingActionUpdateId action →
      (enqueueOrDiscardReply library action chat updateId messageId response state).deadLetters =
        state.deadLetters ∧ ∃ answer, Removed state
          (enqueueOrDiscardReply library action chat updateId messageId response state) action
          answer := by
    intro chat updateId messageId hchat hnumber
    unfold enqueueOrDiscardReply
    split
    · exact ⟨rfl, none, removed_complete action state⟩
    · exact ⟨rfl, _, removed_enqueue (removed_complete action state) hchat hnumber⟩
  cases action with
  | deliverReply pending => exact ⟨rfl, none, removed_complete _ state⟩
  | runPendingTurn pending | runPendingMediaTurn pending => exact hreply _ _ _ rfl rfl
  | leaveUnauthorizedChat pending => exact ⟨rfl, none, removed_complete _ state⟩

theorem failureReply_facts {err : Text} {reply : TelegramPendingReply}
    (h : failureReply library action err = some reply) :
    reply.pendingChat = pendingActionChat action ∧
      reply.pendingUpdateId = pendingActionUpdateId action := by
  cases action with
  | deliverReply pending | leaveUnauthorizedChat pending => cases h
  | runPendingTurn pending | runPendingMediaTurn pending =>
    cases h
    exact ⟨rfl, rfl⟩

/-- A final failure moves the action to the dead letters. -/
theorem removed_failed {err : Text} (now : Timestamp)
    (hfinal : isFinalFailure library action err state = true) :
    (∃ dead, (recordPendingFailure library action err now state).1.deadLetters =
      state.deadLetters ++ [dead] ∧ dead.deadLetterAction = some action) ∧
      ∃ answer, Removed state (recordPendingFailure library action err now state).1 action answer := by
  rw [recordPendingFailure, if_pos hfinal]
  have hdeleted : ∀ retryMetadata deadLetters, Removed state
      { deletePendingAction action state with retryMetadata, deadLetters } action none :=
    fun _ _ => ⟨fun _ _ => pending_delete, rfl, fun _ heq => by cases heq⟩
  cases hreply : failureReply library action err with
  | none => exact ⟨⟨_, rfl, rfl⟩, none, hdeleted _ _⟩
  | some reply =>
    obtain ⟨hchat, hnumber⟩ := failureReply_facts hreply
    exact ⟨⟨_, rfl, rfl⟩, _, removed_enqueue (hdeleted _ _) hchat hnumber⟩

/-- Any other failure leaves the queues as they are. -/
theorem recordPendingFailure_retry {err : Text} (now : Timestamp)
    (hfinal : isFinalFailure library action err state = false) :
    (recordPendingFailure library action err now state).1.pendingQueues = state.pendingQueues ∧
      (recordPendingFailure library action err now state).1.nextUpdateId = state.nextUpdateId ∧
      (recordPendingFailure library action err now state).1.deadLetters = state.deadLetters := by
  rw [recordPendingFailure, hfinal, if_neg (by decide)]
  exact ⟨rfl, rfl, rfl⟩

end Removed

section Ended

variable {w w' : TelegramWorld} {worker : TelegramWorker} {chat : TelegramChatKey}
  {answer : Option PendingChatAction}

/-- What stays when the worker of a chat ends its action. -/
structure Ended (w w' : TelegramWorld) (chat : TelegramChatKey) (worker : TelegramWorker)
    (answer : Option PendingChatAction) : Prop where
  removed : Removed w.state w'.state worker.action answer
  workers : w'.workers = w.workers.insert chat none
  batch : w'.batch = w.batch
  accepted : w'.accepted = w.accepted
  transcripts : w'.transcripts = w.transcripts

section

variable (he : Ended w w' chat worker answer)
include he

theorem Ended.pending_cases {other : TelegramChatKey} {n : ℤ}
    {a : PendingChatAction} (h : w'.state.pending other n = some a) :
    w.state.pending other n = some a ∨ (isTurn a = false ∧
      other = pendingActionChat worker.action ∧ n = pendingActionUpdateId worker.action ∧
        pendingActionChat a = other ∧ pendingActionUpdateId a = n) := by
  rw [he.removed.pending] at h
  split at h
  · next heq =>
    obtain ⟨hturn, hchat, hnumber⟩ := he.removed.answer a h
    exact .inr ⟨hturn, heq.1, heq.2, hchat.trans heq.1.symm, hnumber.trans heq.2.symm⟩
  · exact .inl h

theorem Ended.made {action : PendingChatAction}
    (h : Made w action) : Made w' action :=
  h.congr he.removed.offset he.batch he.accepted he.transcripts

theorem Ended.used {n : ℤ} (h : w.Used n) : w'.Used n := by
  obtain ⟨next, hnext, hlt⟩ := h
  exact ⟨next, he.removed.offset.trans hnext, hlt⟩

end

/-- The worker ends: where its turn goes is given by the rest of the step. -/
theorem TelegramInvariant.ended (h : TelegramInvariant w)
    (htaken : w.workers.lookup chat = some (some worker)) (he : Ended w w' chat worker answer)
    (hmade : ∀ place action, w'.turnAt place = some action → Made w' action)
    (haccepted : ∀ u ∈ w.accepted, ∃! place, w'.Holds u place)
    (hcompleted : w'.completed = w.completed ∨ (isTurn worker.action = true ∧
      (w.state.pending chat (pendingActionUpdateId worker.action)).isSome ∧
      w'.completed = w.completed ++ [worker.prompt])) : TelegramInvariant w' := by
  have hworker := h.workers chat worker htaken
  have hturnCases : ∀ {other n a}, w'.state.pending other n = some a → isTurn a = true →
      w.state.pending other n = some a := by
    intro other n a hpending hturn
    rcases he.pending_cases hpending with hpending | ⟨hnot, -⟩
    · exact hpending
    · rw [hnot] at hturn
      cases hturn
  refine ⟨fun other n a hpending => ?_, hmade, fun u hu => ?_, ?_, ?_, ?_, ?_, ?_⟩
  · rcases he.pending_cases hpending with hpending | ⟨-, -, hn, hchat, hnumber⟩
    · obtain ⟨hchat, hnumber, hused⟩ := h.keyed other n a hpending
      exact ⟨hchat, hnumber, he.used hused⟩
    · exact ⟨hchat, hnumber, hn ▸ he.used hworker.used⟩
  · rw [he.accepted] at hu
    exact ⟨he.used (h.accepted u hu).1, haccepted u hu⟩
  · intro other j k a b ha hb hta htb hlt u hu
    rw [he.batch] at hu
    exact h.queued other j k a b (hturnCases ha hta) (hturnCases hb htb) hta htb hlt u hu
  · intro run hrun k b hb htb u hu
    rw [he.batch] at hu
    have hpending := hturnCases hb htb
    rcases hcompleted with hsame | ⟨hturn, hsome, hsame⟩
    · exact h.before run (hsame ▸ hrun) k b hpending htb u hu
    · rw [hsame] at hrun
      rcases mem_append.mp hrun with hrun | hrun
      · exact h.before run hrun k b hpending htb u hu
      · -- the turn that was run was the first of its queue
        obtain rfl := mem_singleton.mp hrun
        obtain ⟨hnumber, hchat, -⟩ := hworker.prompt
        rw [hchat] at hb hpending
        rw [hnumber]
        obtain ⟨own, hown⟩ := isSome_iff_exists.mp hsome
        have hle := hworker.least k (by rw [hpending]; rfl)
        have hne : k ≠ pendingActionUpdateId worker.action := by
          rintro rfl
          rw [he.removed.pending, if_pos ⟨hworker.chat_eq.symm, rfl⟩] at hb
          rw [(he.removed.answer b hb).1] at htb
          cases htb
        have hownTurn : isTurn own = true := (hworker.same own hown).trans hturn
        exact h.queued chat _ k own b hown hpending hownTurn htb (by omega) u hu
  · rcases hcompleted with hsame | ⟨hturn, hsome, hsame⟩
    · rw [hsame, he.batch]
      exact h.sorted
    · rw [hsame, he.batch, pairwise_append]
      refine ⟨h.sorted, pairwise_singleton _ _, fun a ha b hb hchats u hu => ?_⟩
      obtain rfl := mem_singleton.mp hb
      obtain ⟨hnumber, hchat, -⟩ := hworker.prompt
      obtain ⟨own, hown⟩ := isSome_iff_exists.mp hsome
      rw [hnumber] at hu
      refine h.before a ha _ own ?_ ((hworker.same own hown).trans hturn) u hu
      rw [hchats, hchat]
      exact hown
  · intro run hrun
    rcases hcompleted with hsame | ⟨hturn, -, hsame⟩
    · exact h.turns run (hsame ▸ hrun)
    · rw [hsame] at hrun
      rcases mem_append.mp hrun with hrun | hrun
      · exact h.turns run hrun
      · rw [mem_singleton.mp hrun, hworker.prompt.2.2, hturn]
  · intro other otherWorker hlookup
    rw [he.workers, lookup_insert] at hlookup
    split at hlookup
    · cases hlookup
    · next hne =>
      have hother := h.workers other otherWorker hlookup
      have hsame : ∀ n, w'.state.pending other n = w.state.pending other n := by
        intro n
        rw [he.removed.pending, if_neg]
        rintro ⟨heq, -⟩
        exact hne (heq.trans hworker.chat_eq)
      refine ⟨hother.chat_eq, hother.prompt, he.used hother.used, fun n hn => ?_, fun b hb => ?_,
        fun hturn => ⟨he.made (hother.made hturn).1, he.made (hother.made hturn).2⟩⟩
      · rw [hsame] at hn
        exact hother.least n hn
      · rw [hsame] at hb
        exact hother.same b hb

end Ended

section EndingSteps

variable {α : Type} {w w' : TelegramWorld} {worker : TelegramWorker} {chat : TelegramChatKey}
  {library : TelegramLibrary} {answer : Option PendingChatAction}

theorem getElem?_concat_of_ne {l : List α} {a : α} {index : ℕ} (h : index ≠ l.length) :
    (l ++ [a])[index]? = l[index]? := by
  rcases Nat.lt_or_gt_of_ne h with hlt | hgt
  · rw [List.getElem?_append_left hlt]
  · rw [List.getElem?_eq_none (by simp; omega), List.getElem?_eq_none (by omega)]

/-- A turn that ends leaves its place in the queue for a place that was empty. -/
theorem TelegramInvariant.moves (h : TelegramInvariant w)
    (htaken : w.workers.lookup chat = some (some worker)) (he : Ended w w' chat worker answer)
    {new : Place} {ran : PendingChatAction} (hturn : isTurn worker.action = true)
    (hpending : (w.state.pending chat (pendingActionUpdateId worker.action)).isSome)
    (hnumber : pendingActionUpdateId ran = pendingActionUpdateId worker.action)
    (hran : Made w ran) (hempty : w.turnAt new = none) (hnew : w'.turnAt new = some ran)
    (hrest : ∀ place, place ≠ new → (∀ other n, place ≠ .pending other n) →
      w'.turnAt place = w.turnAt place) :
    (∀ place action, w'.turnAt place = some action → Made w' action) ∧
      ∀ u ∈ w.accepted, ∃! place, w'.Holds u place := by
  have hworker := h.workers chat worker htaken
  obtain ⟨own, hown⟩ := isSome_iff_exists.mp hpending
  have hownTurn : isTurn own = true := (hworker.same own hown).trans hturn
  have hold : w.turnAt (.pending chat (pendingActionUpdateId worker.action)) = some own :=
    turnAt_pending.mpr ⟨hown, hownTurn⟩
  have hne : (Place.pending chat (pendingActionUpdateId worker.action)) ≠ new := by
    rintro rfl
    rw [hold] at hempty
    cases hempty
  have hgone : w'.turnAt (.pending chat (pendingActionUpdateId worker.action)) = none := by
    change (w'.state.pending _ _).filter isTurn = none
    rw [he.removed.pending, if_pos ⟨hworker.chat_eq.symm, rfl⟩]
    cases hanswer : answer with
    | none => rfl
    | some reply =>
      rw [filter_some, (he.removed.answer reply hanswer).1]
      rfl
  have hstay : ∀ place, place ≠ new →
      place ≠ .pending chat (pendingActionUpdateId worker.action) →
      w'.turnAt place = w.turnAt place := by
    intro place hplace hother
    cases place with
    | pending other n =>
      change (w'.state.pending other n).filter isTurn = (w.state.pending other n).filter isTurn
      rw [he.removed.pending, if_neg]
      rintro ⟨heq, rfl⟩
      exact hother (by rw [heq, hworker.chat_eq])
    | deadLetter index | completed index => exact hrest _ hplace nofun
  refine ⟨fun place action hplace => ?_, fun u hu => ?_⟩
  · by_cases heq : place = new
    · rw [heq, hnew, some.injEq] at hplace
      exact hplace ▸ he.made hran
    · by_cases hpl : place = .pending chat (pendingActionUpdateId worker.action)
      · rw [hpl, hgone] at hplace
        cases hplace
      · rw [hstay place heq hpl] at hplace
        exact he.made (h.made place action hplace)
  · refine existsUnique_move (.pending chat (pendingActionUpdateId worker.action)) new
      (h.accepted u hu).2 ?_ ?_ ?_ fun place hpl heq => holds_congr (hstay place heq hpl) he.batch
    · rintro ⟨action, hplace, -⟩
      rw [hempty] at hplace
      cases hplace
    · rw [TelegramWorld.Holds, TelegramWorld.Holds, hnew, hold, he.batch]
      have hownNumber := (h.keyed chat _ own hown).2.1
      constructor
      · rintro ⟨action, heq, hmem⟩
        cases heq
        exact ⟨own, rfl, by rw [hownNumber, ← hnumber]; exact hmem⟩
      · rintro ⟨action, heq, hmem⟩
        cases heq
        exact ⟨ran, rfl, by rw [hnumber, ← hownNumber]; exact hmem⟩
    · rintro ⟨action, hplace, -⟩
      rw [hgone] at hplace
      cases hplace

/-- What is no turn leaves every queue with the same turns. -/
theorem Ended.turnAt_pending_of_not (he : Ended w w' chat worker answer)
    (hworker : Taken w chat worker) (hturn : isTurn worker.action = false)
    (other : TelegramChatKey) (n : ℤ) :
    w'.turnAt (.pending other n) = w.turnAt (.pending other n) := by
  change (w'.state.pending other n).filter isTurn = (w.state.pending other n).filter isTurn
  rw [he.removed.pending]
  split
  · next heq =>
    obtain ⟨hother, rfl⟩ := heq
    have hbefore : (w.state.pending other (pendingActionUpdateId worker.action)).filter isTurn =
        none := by
      rw [filter_eq_none_iff]
      intro b hb
      rw [hother, hworker.chat_eq] at hb
      rw [hworker.same b hb, hturn]
      decide
    rw [hbefore, filter_eq_none_iff]
    intro reply hreply
    rw [(he.removed.answer reply hreply).1]
    decide
  · rfl

/-- The end of what is no turn moves no turn. -/
theorem TelegramInvariant.stays (h : TelegramInvariant w) (he : Ended w w' chat worker answer)
    (hworker : Taken w chat worker) (hturn : isTurn worker.action = false)
    (hrest : ∀ place, (∀ other n, place ≠ .pending other n) →
      w'.turnAt place = w.turnAt place) :
    (∀ place action, w'.turnAt place = some action → Made w' action) ∧
      ∀ u ∈ w.accepted, ∃! place, w'.Holds u place := by
  have hsame : ∀ place, w'.turnAt place = w.turnAt place := by
    intro place
    cases place with
    | pending other n => exact he.turnAt_pending_of_not hworker hturn other n
    | deadLetter index | completed index => exact hrest _ nofun
  refine ⟨fun place action hplace => he.made (h.made place action (hsame place ▸ hplace)),
    fun u hu => ?_⟩
  obtain ⟨place, hplace, honly⟩ := (h.accepted u hu).2
  refine ⟨place, (holds_congr (hsame place) he.batch).mpr hplace, fun other hother => ?_⟩
  exact honly other ((holds_congr (hsame other) he.batch).mp hother)

theorem TelegramInvariant.complete (h : TelegramInvariant w)
    (htaken : w.workers.lookup chat = some (some worker)) {response : TelegramTurnResponse}
    (hin : isTurn worker.action = true →
      (w.state.pending chat (pendingActionUpdateId worker.action)).isSome) :
    TelegramInvariant { w with
      state := performed library worker.action response w.state
      workers := w.workers.insert chat none
      completed :=
        if isTurn worker.action = true then w.completed ++ [worker.prompt] else w.completed } := by
  have hworker := h.workers chat worker htaken
  obtain ⟨hdead, answer, hremoved⟩ :=
    removed_performed library worker.action response w.state
  generalize hw' : ({ w with
      state := performed library worker.action response w.state
      workers := w.workers.insert chat none
      completed := if isTurn worker.action = true then w.completed ++ [worker.prompt]
        else w.completed } : TelegramWorld) = w'
  have he : Ended w w' chat worker answer := by
    subst hw'
    exact ⟨hremoved, rfl, rfl, rfl, rfl⟩
  have hdeadTurn : ∀ index, w'.turnAt (.deadLetter index) = w.turnAt (.deadLetter index) := by
    intro index
    subst hw'
    change ((performed library worker.action response w.state).deadLetters[index]?.bind
      (·.deadLetterAction)).filter isTurn = _
    rw [hdead]
    rfl
  cases hturn : isTurn worker.action with
  | true =>
    have hcompleted : w'.completed = w.completed ++ [worker.prompt] := by
      subst hw'
      exact if_pos hturn
    obtain ⟨hnumber, -, hprompt⟩ := hworker.prompt
    have hpromptTurn : isTurn worker.prompt = true := hprompt.trans hturn
    have hempty : w.turnAt (.completed w.completed.length) = none := by
      change (w.completed[w.completed.length]?).filter isTurn = none
      rw [List.getElem?_eq_none le_rfl]
      rfl
    have hnew : w'.turnAt (.completed w.completed.length) = some worker.prompt := by
      rw [turnAt_completed, hcompleted, List.getElem?_concat_length]
      exact ⟨rfl, hpromptTurn⟩
    obtain ⟨hmade, haccepted⟩ := h.moves htaken he hturn (hin hturn) hnumber
      (hworker.made hturn).2 hempty hnew fun place hplace hqueue => by
        cases place with
        | pending other n => exact absurd rfl (hqueue other n)
        | deadLetter index => exact hdeadTurn index
        | completed index =>
          have hne : index ≠ w.completed.length := fun heq => hplace (by rw [heq])
          change (w'.completed[index]?).filter isTurn = (w.completed[index]?).filter isTurn
          rw [hcompleted, getElem?_concat_of_ne hne]
    exact h.ended htaken he hmade haccepted (.inr ⟨hturn, hin hturn, hcompleted⟩)
  | false =>
    have hcompleted : w'.completed = w.completed := by
      subst hw'
      exact if_neg (by rw [hturn]; decide)
    obtain ⟨hmade, haccepted⟩ := h.stays he hworker hturn fun place hqueue => by
      cases place with
      | pending other n => exact absurd rfl (hqueue other n)
      | deadLetter index => exact hdeadTurn index
      | completed index =>
        change (w'.completed[index]?).filter isTurn = (w.completed[index]?).filter isTurn
        rw [hcompleted]
    exact h.ended htaken he hmade haccepted (.inl hcompleted)

theorem TelegramInvariant.fail (h : TelegramInvariant w)
    (htaken : w.workers.lookup chat = some (some worker)) {err : Text} {now : Timestamp}
    (hin : isTurn worker.action = true → isFinalFailure library worker.action err w.state = true →
      (w.state.pending chat (pendingActionUpdateId worker.action)).isSome) :
    TelegramInvariant { w with
      state := (recordPendingFailure library worker.action err now w.state).1
      workers := w.workers.insert chat none } := by
  have hworker := h.workers chat worker htaken
  cases hfinal : isFinalFailure library worker.action err w.state with
  | true =>
    obtain ⟨⟨dead, hdead, hdeadAction⟩, answer, hremoved⟩ :=
      removed_failed now hfinal
    generalize hw' : ({ w with
        state := (recordPendingFailure library worker.action err now w.state).1
        workers := w.workers.insert chat none } : TelegramWorld) = w'
    have he : Ended w w' chat worker answer := by
      subst hw'
      exact ⟨hremoved, rfl, rfl, rfl, rfl⟩
    have hcompleted : w'.completed = w.completed := by
      subst hw'
      rfl
    have hdeadLetters : w'.state.deadLetters = w.state.deadLetters ++ [dead] := by
      subst hw'
      exact hdead
    have hcompletedTurn : ∀ index, w'.turnAt (.completed index) = w.turnAt (.completed index) := by
      intro index
      change (w'.completed[index]?).filter isTurn = (w.completed[index]?).filter isTurn
      rw [hcompleted]
    have hletter : ∀ index, index ≠ w.state.deadLetters.length →
        w'.state.deadLetters[index]? = w.state.deadLetters[index]? := by
      intro index hne
      rw [hdeadLetters, getElem?_concat_of_ne hne]
    have hlast : w'.state.deadLetters[w.state.deadLetters.length]? = some dead := by
      rw [hdeadLetters, List.getElem?_concat_length]
    have hnone : w.state.deadLetters[w.state.deadLetters.length]? = none :=
      List.getElem?_eq_none le_rfl
    cases hturn : isTurn worker.action with
    | true =>
      have hempty : w.turnAt (.deadLetter w.state.deadLetters.length) = none := by
        change (w.state.deadLetters[w.state.deadLetters.length]?.bind _).filter isTurn = none
        rw [hnone]
        rfl
      have hnew : w'.turnAt (.deadLetter w.state.deadLetters.length) = some worker.action := by
        rw [turnAt_deadLetter, hlast]
        exact ⟨hdeadAction, hturn⟩
      obtain ⟨hmade, haccepted⟩ := h.moves htaken he hturn (hin hturn hfinal) rfl
        (hworker.made hturn).1 hempty hnew fun place hplace hqueue => by
          cases place with
          | pending other n => exact absurd rfl (hqueue other n)
          | deadLetter index =>
            have hne : index ≠ w.state.deadLetters.length := fun heq => hplace (by rw [heq])
            change (w'.state.deadLetters[index]?.bind _).filter isTurn =
              (w.state.deadLetters[index]?.bind _).filter isTurn
            rw [hletter index hne]
          | completed index => exact hcompletedTurn index
      exact h.ended htaken he hmade haccepted (.inl hcompleted)
    | false =>
      obtain ⟨hmade, haccepted⟩ := h.stays he hworker hturn fun place hqueue => by
        cases place with
        | pending other n => exact absurd rfl (hqueue other n)
        | deadLetter index =>
          change (w'.state.deadLetters[index]?.bind _).filter isTurn =
            (w.state.deadLetters[index]?.bind _).filter isTurn
          by_cases hne : index = w.state.deadLetters.length
          · rw [hne, hlast, hnone, Option.bind_some, hdeadAction, filter_some, hturn]
            rfl
          · rw [hletter index hne]
        | completed index => exact hcompletedTurn index
      exact h.ended htaken he hmade haccepted (.inl hcompleted)
  | false =>
    obtain ⟨hqueues, hoffset, hdead⟩ := recordPendingFailure_retry now hfinal
    refine h.frame ?_ hdead ?_ (h.taken_insert chat (by simp))
    · funext other n
      rw [TelegramState.pending, hqueues]
      rfl
    · rintro n ⟨next, hnext, hlt⟩
      exact ⟨next, hoffset.trans hnext, hlt⟩

end EndingSteps

/-! ### A voice message is transcribed -/

section Transcribing

variable {updateId : ℤ} {transcript : Text} {action : PendingChatAction}

theorem withTranscript_facts (updateId : ℤ) (transcript : Text) (action : PendingChatAction) :
    pendingActionUpdateId (withTranscript updateId transcript action) =
        pendingActionUpdateId action ∧
      pendingActionChat (withTranscript updateId transcript action) = pendingActionChat action ∧
      isTurn (withTranscript updateId transcript action) = isTurn action := by
  cases action with
  | runPendingTurn current =>
    rw [withTranscript]
    split <;> exact ⟨rfl, rfl, rfl⟩
  | _ => exact ⟨rfl, rfl, rfl⟩

theorem withTranscript_of_ne (hne : pendingActionUpdateId action ≠ updateId) :
    withTranscript updateId transcript action = action := by
  cases action with
  | runPendingTurn current => exact if_neg hne
  | _ => rfl

variable {w : TelegramWorld} {chat : TelegramChatKey} {pending : TelegramPendingTurn}

/-- The world after the transcript of a voice message is stored. -/
def TelegramWorld.transcribed (w : TelegramWorld) (chat : TelegramChatKey)
    (pending : TelegramPendingTurn) (transcript : Text) : TelegramWorld :=
  { w with
    state := checkpointPendingVoiceTranscript pending.pendingTurnUpdateId transcript w.state
    workers := w.workers.insert chat (some
      { action := .runPendingTurn pending
        prompt := .runPendingTurn
          { pending with pendingTurnText := transcript, pendingTurnVoice := none } })
    transcripts := w.transcripts ++ [(pending.pendingTurnUpdateId, transcript)] }

theorem Made.transcribed (h : Made w action) : Made (w.transcribed chat pending transcript) action :=
  ⟨h.used, h.nonempty, h.ascending, h.members, h.built.mono, h.single⟩

/-- The transcript stands for the one update that the turn with the voice message is made of. -/
theorem made_withTranscript (chat : TelegramChatKey) (transcript : Text) (hown : Made w (.runPendingTurn pending))
    (hvoice : pending.pendingTurnVoice.isSome) (h : Made w action)
    (hnumber : pendingActionUpdateId action = pending.pendingTurnUpdateId) :
    Made (w.transcribed chat pending transcript)
      (withTranscript pending.pendingTurnUpdateId transcript action) := by
  cases action with
  | runPendingTurn current =>
    obtain ⟨u, hbatch, huId⟩ := hown.single hvoice
    have hshown : u.voice.isSome := by
      obtain ⟨⟨texts, htexts, -⟩, -⟩ := hown.built
      rw [hbatch] at htexts
      cases htexts with
      | cons hshow _ =>
        rcases hshow with ⟨-, heq⟩ | ⟨hsome, -, -⟩
        · change pending.pendingTurnVoice = u.voice at heq
          rw [← heq]
          exact hvoice
        · exact hsome
    have hsame : current.pendingTurnUpdateId = pending.pendingTurnUpdateId := hnumber
    have hcurrent : w.batch current.pendingTurnUpdateId = [u] := by
      rw [hsame]
      exact hbatch
    rw [withTranscript, if_pos hsame]
    refine ⟨h.used, h.nonempty, h.ascending, h.members, ⟨⟨[transcript], ?_, rfl⟩, ?_⟩,
      fun hsome => by cases hsome⟩
    · change List.Forall₂ _ (w.batch current.pendingTurnUpdateId) [transcript]
      rw [hcurrent]
      refine .cons (.inr ⟨hshown, rfl, ?_⟩) .nil
      rw [huId]
      exact mem_append_right _ (mem_singleton.mpr rfl)
    · exact h.built.2
  | runPendingMediaTurn current | deliverReply current | leaveUnauthorizedChat current =>
    exact h.transcribed

theorem TelegramInvariant.transcribe (h : TelegramInvariant w) {prompt : PendingChatAction}
    (htaken : w.workers.lookup chat = some (some ⟨.runPendingTurn pending, prompt⟩))
    (hvoice : pending.pendingTurnVoice.isSome) :
    TelegramInvariant (w.transcribed chat pending transcript) := by
  have hworker := h.workers chat _ htaken
  obtain ⟨hown, -⟩ := hworker.made rfl
  have hpending : ∀ other n, (w.transcribed chat pending transcript).state.pending other n =
      (w.state.pending other n).map (withTranscript pending.pendingTurnUpdateId transcript) :=
    fun other n => pending_checkpoint
  have hback : ∀ {other n a}, (w.transcribed chat pending transcript).state.pending other n =
      some a → ∃ b, w.state.pending other n = some b ∧
        a = withTranscript pending.pendingTurnUpdateId transcript b := by
    intro other n a ha
    rw [hpending] at ha
    obtain ⟨b, hb, rfl⟩ := map_eq_some_iff.mp ha
    exact ⟨b, hb, rfl⟩
  have hsome : ∀ other n, ((w.transcribed chat pending transcript).state.pending other n).isSome →
      (w.state.pending other n).isSome := by
    intro other n hn
    rwa [hpending, isSome_map] at hn
  have hmade : ∀ b, Made w b → Made (w.transcribed chat pending transcript)
      (withTranscript pending.pendingTurnUpdateId transcript b) := by
    intro b hb
    by_cases hnumber : pendingActionUpdateId b = pending.pendingTurnUpdateId
    · exact made_withTranscript chat transcript hown hvoice hb hnumber
    · rw [withTranscript_of_ne hnumber]
      exact hb.transcribed
  have hturnAt : ∀ place, (w.transcribed chat pending transcript).turnAt place = w.turnAt place ∨
      ∃ b, w.turnAt place = some b ∧ (w.transcribed chat pending transcript).turnAt place =
        some (withTranscript pending.pendingTurnUpdateId transcript b) := by
    intro place
    cases place with
    | pending other n =>
      change ((w.transcribed chat pending transcript).state.pending other n).filter isTurn =
          (w.state.pending other n).filter isTurn ∨
        ∃ b, (w.state.pending other n).filter isTurn = some b ∧
          ((w.transcribed chat pending transcript).state.pending other n).filter isTurn = some _
      rw [hpending]
      cases hb : w.state.pending other n with
      | none => exact .inl rfl
      | some b =>
        have hturn := (withTranscript_facts pending.pendingTurnUpdateId transcript b).2.2
        rw [map_some, filter_some, filter_some, hturn]
        cases isTurn b with
        | true => exact .inr ⟨b, rfl, rfl⟩
        | false => exact .inl rfl
    | deadLetter index | completed index => exact .inl rfl
  have hholds : ∀ u place, (w.transcribed chat pending transcript).Holds u place ↔
      w.Holds u place := by
    intro u place
    rcases hturnAt place with hsame | ⟨b, hb, hafter⟩
    · rw [TelegramWorld.Holds, TelegramWorld.Holds, hsame]
      rfl
    · have hnumber := (withTranscript_facts pending.pendingTurnUpdateId transcript b).1
      rw [TelegramWorld.Holds, TelegramWorld.Holds, hb, hafter]
      constructor
      · rintro ⟨action, heq, hmem⟩
        cases heq
        rw [hnumber] at hmem
        exact ⟨b, rfl, hmem⟩
      · rintro ⟨action, heq, hmem⟩
        cases heq
        exact ⟨_, rfl, by rw [hnumber]; exact hmem⟩
  refine ⟨fun other n a ha => ?_, fun place action hplace => ?_, fun u hu => ?_, ?_, ?_,
    h.sorted, h.turns, ?_⟩
  · obtain ⟨b, hb, rfl⟩ := hback ha
    obtain ⟨hnumber, hchat, -⟩ := withTranscript_facts pending.pendingTurnUpdateId transcript b
    obtain ⟨hbchat, hbnumber, hused⟩ := h.keyed other n b hb
    exact ⟨hchat.trans hbchat, hnumber.trans hbnumber, hused⟩
  · rcases hturnAt place with hsame | ⟨b, hb, hafter⟩
    · exact (h.made place action (hsame ▸ hplace)).transcribed
    · rw [hafter, some.injEq] at hplace
      exact hplace ▸ hmade b (h.made place b hb)
  · obtain ⟨hused, place, hplace, honly⟩ := h.accepted u hu
    exact ⟨hused, place, (hholds u place).mpr hplace,
      fun other hother => honly other ((hholds u other).mp hother)⟩
  · intro other j k a b ha hb hta htb hlt
    obtain ⟨a', ha', rfl⟩ := hback ha
    obtain ⟨b', hb', rfl⟩ := hback hb
    rw [(withTranscript_facts _ transcript a').2.2] at hta
    rw [(withTranscript_facts _ transcript b').2.2] at htb
    exact h.queued other j k a' b' ha' hb' hta htb hlt
  · intro run hrun k b hb htb
    obtain ⟨b', hb', rfl⟩ := hback hb
    rw [(withTranscript_facts _ transcript b').2.2] at htb
    exact h.before run hrun k b' hb' htb
  · intro other otherWorker hlookup
    change (w.workers.insert chat _).lookup other = _ at hlookup
    rw [lookup_insert] at hlookup
    split at hlookup
    · next heq =>
      subst heq
      obtain rfl := some.inj (some.inj hlookup)
      refine ⟨hworker.chat_eq, ⟨rfl, hworker.chat_eq, rfl⟩, hworker.used,
        fun n hn => hworker.least n (hsome _ n hn), fun b hb => ?_, fun _ => ⟨hown.transcribed, ?_⟩⟩
      · obtain ⟨b', hb', rfl⟩ := hback hb
        rw [(withTranscript_facts _ transcript b').2.2]
        exact hworker.same b' hb'
      · have hprompt := made_withTranscript other transcript hown hvoice hown rfl
        rw [withTranscript, if_pos rfl] at hprompt
        exact hprompt
    · have hother := h.workers other otherWorker hlookup
      refine ⟨hother.chat_eq, hother.prompt, hother.used,
        fun n hn => hother.least n (hsome _ n hn), fun b hb => ?_,
        fun hturn => ⟨(hother.made hturn).1.transcribed, (hother.made hturn).2.transcribed⟩⟩
      obtain ⟨b', hb', rfl⟩ := hback hb
      rw [(withTranscript_facts _ transcript b').2.2]
      exact hother.same b' hb'

end Transcribing

/-! ### Runs -/

section Runs

variable {w w' : TelegramWorld} {library : TelegramLibrary}

/-- A step whose turn is still in the queue when it ends keeps what holds between two steps. -/
theorem TelegramInvariant.step (h : TelegramInvariant w) {event : TelegramEvent}
    (hok : w.EndsInQueue library event) (hstep : telegramStep library w event = some w') :
    TelegramInvariant w' := by
  cases event with
  | update updateId action =>
    rw [telegramStep, map_eq_some_iff] at hstep
    obtain ⟨incoming, hincoming, rfl⟩ := hstep
    cases hstored : updateAlreadyStored updateId w.state with
    | true =>
      -- only the offset moves
      have hstate : storeUpdateAction library updateId action w.state =
          advanceOffset updateId w.state := by
        unfold storeUpdateAction
        rw [if_pos hstored]
      have hworld : w.store library updateId action incoming =
          { w with state := advanceOffset updateId w.state } := by
        rw [TelegramWorld.store, if_pos hstored, hstate]
      rw [hworld]
      exact h.frame rfl rfl (used_advanceOffset w updateId rfl rfl).2 h.workers
    | false =>
      obtain ⟨added, removed, hq⟩ := queued_of_store h hincoming hstored
      obtain ⟨hfresh, hvacant⟩ := fresh_of_not_stored hstored
      exact h.queue hq hfresh hvacant (incomingAction_facts hincoming).1
  | schedule chat =>
    rw [telegramStep] at hstep
    split at hstep
    · cases hstep
      exact h.withWorkers (h.taken_insert chat (by simp))
    · cases hstep
  | next chat =>
    rw [telegramStep] at hstep
    split at hstep
    · split at hstep
      · cases hstep
        refine h.withWorkers fun other worker hlookup => ?_
        rw [lookup_delete] at hlookup
        split at hlookup
        · cases hlookup
        · exact h.workers other worker hlookup
      · next action hnext =>
        cases hstep
        refine h.withWorkers (h.taken_insert chat fun worker heq => ?_)
        cases heq
        exact taken_of_next h hnext
    · cases hstep
  | transcribe chat clean =>
    rw [telegramStep] at hstep
    split at hstep
    · next pending prompt hlookup =>
      split at hstep
      · next hcondition =>
        cases hstep
        exact h.transcribe hlookup hcondition.1
      · cases hstep
    · cases hstep
  | complete chat response =>
    rw [telegramStep] at hstep
    split at hstep
    · next worker hlookup =>
      cases hstep
      exact h.complete hlookup fun hturn => hok worker hlookup hturn
    · cases hstep
  | fail chat err now =>
    rw [telegramStep] at hstep
    split at hstep
    · next worker hlookup =>
      cases hstep
      exact h.fail hlookup fun hturn hfinal => hok worker hlookup hturn hfinal
    · cases hstep

/-- The updates of the runs of a chat. -/
def TelegramWorld.runUpdates (w : TelegramWorld) (chat : TelegramChatKey) : List Incoming :=
  (w.runsOf chat).flatMap fun run => w.batch (pendingActionUpdateId run)

theorem TelegramInvariant.pairwise_runUpdates (h : TelegramInvariant w) (chat : TelegramChatKey) :
    (w.runUpdates chat).Pairwise fun a b => a.updateId < b.updateId := by
  rw [TelegramWorld.runUpdates, pairwise_flatMap]
  refine ⟨fun run hrun => (h.made_of_completed (mem_filter.mp hrun).1).ascending, ?_⟩
  refine (h.sorted.filter _).imp_of_mem fun {a b} ha hb hsorted u hu v hv => ?_
  have hachat : pendingActionChat a = chat := of_decide_eq_true (mem_filter.mp ha).2
  have hbchat : pendingActionChat b = chat := of_decide_eq_true (mem_filter.mp hb).2
  have hle := ((h.made_of_completed (mem_filter.mp ha).1).members u hu).2.2
  have hlt := hsorted (hachat.trans hbchat.symm) v hv
  omega

/-- **Where turns that end are still in the queue, each update is part of the turn in exactly one
place; that turn has the texts and the attachments of the updates it is made of; and the updates of
a chat are run in their order.** -/
theorem telegram_updates_once
    (hw : ReachableBy (telegramStep library) (TelegramWorld.EndsInQueue library) idleGateway w) :
    (∀ u ∈ w.accepted, ∃! place, w.Holds u place) ∧
    (∀ place action, w.turnAt place = some action →
      BuiltFrom w.transcripts (w.batch (pendingActionUpdateId action)) action ∧
      ∀ u ∈ w.batch (pendingActionUpdateId action), u ∈ w.accepted ∧
        u.chat = pendingActionChat action) ∧
    ∀ chat, (w.runUpdates chat).Pairwise fun a b => a.updateId < b.updateId := by
  have hinvariant : TelegramInvariant w :=
    hw.invariant telegramInvariant_idle fun w event w' h hok hstep => h.step hok hstep
  refine ⟨fun u hu => (hinvariant.accepted u hu).2, fun place action hplace => ?_,
    hinvariant.pairwise_runUpdates⟩
  have hmade := hinvariant.made place action hplace
  exact ⟨hmade.built, fun u hu => ⟨(hmade.members u hu).1, (hmade.members u hu).2.1⟩⟩

end Runs

/-! ### A message that arrives while another is run -/

def exampleTelegramLibrary : TelegramLibrary where
  toLower := List.map Char.toLower
  markdownToTelegramHtml text := text

def exampleChat : TelegramChatKey := ⟨123, none⟩

def exampleAnswer : TelegramTurnResponse := ⟨"done".toList, none⟩

def exampleMessage (updateId : ℤ) (text : String) : TelegramEvent :=
  .update updateId (.queueTurn (updateId + 67) exampleChat text.toList none)

/-- Two messages that are joined before a worker takes them. -/
def exampleBurst : List TelegramEvent :=
  [exampleMessage 10 "first", exampleMessage 11 "second", .schedule exampleChat,
    .next exampleChat, .complete exampleChat exampleAnswer]

instance decidableForallFound {α : Type} {P : α → Prop} [DecidablePred P]
    (o : Option (Option α)) : Decidable (∀ a, o = some (some a) → P a) :=
  match o with
  | none | some none => isTrue fun a heq => by cases heq
  | some (some a) => decidable_of_iff (P a)
      ⟨fun h b heq => by cases heq; exact h, fun h => h a rfl⟩

instance decidableEndsInQueue (w : TelegramWorld) (event : TelegramEvent) :
    Decidable (w.EndsInQueue exampleTelegramLibrary event) := by
  cases event <;> unfold TelegramWorld.EndsInQueue <;> infer_instance

theorem telegram_updates_once_in_exampleBurst :
    ∃ w, ReachableBy (telegramStep exampleTelegramLibrary)
        (TelegramWorld.EndsInQueue exampleTelegramLibrary) idleGateway w ∧
      (w.runUpdates exampleChat).map (·.updateId) = [10, 11] ∧
      ∀ u ∈ w.accepted, ∃! place, w.Holds u place := by
  have hrun : (run (guarded (TelegramWorld.EndsInQueue exampleTelegramLibrary)
      (telegramStep exampleTelegramLibrary)) idleGateway exampleBurst).any
      (fun w : TelegramWorld =>
        decide ((w.runUpdates exampleChat).map (·.updateId) = [10, 11])) = true := by
    decide +kernel
  obtain ⟨w, hw, hruns⟩ := exists_reachableBy_of_run hrun
  exact ⟨w, hw, of_decide_eq_true hruns, (telegram_updates_once hw).1⟩

/-- The second message arrives while the first is run. -/
def exampleInterleaved : List TelegramEvent :=
  [exampleMessage 10 "first", .schedule exampleChat, .next exampleChat,
    exampleMessage 11 "second", .complete exampleChat exampleAnswer, .next exampleChat,
    .complete exampleChat exampleAnswer, .next exampleChat, .complete exampleChat exampleAnswer]

/-- A message that arrives while an earlier one is run makes the earlier one run again. -/
theorem telegram_update_run_twice :
    ∃ w, Reachable (telegramStep exampleTelegramLibrary) idleGateway w ∧
      ∃ u ∈ w.accepted, u.text = "first".toList ∧ w.Holds u (.completed 0) ∧
        w.Holds u (.completed 1) := by
  let first : Incoming := ⟨10, exampleChat, "first".toList, [], none⟩
  have hrun : (run (telegramStep exampleTelegramLibrary) idleGateway exampleInterleaved).any
      (fun w : TelegramWorld => decide (first ∈ w.accepted ∧
        ((w.turnAt (.completed 0)).any fun action =>
          decide (first ∈ w.batch (pendingActionUpdateId action))) = true ∧
        ((w.turnAt (.completed 1)).any fun action =>
          decide (first ∈ w.batch (pendingActionUpdateId action))) = true)) = true := by
    decide +kernel
  obtain ⟨w, hw, hfirst⟩ := exists_reachable_of_run hrun
  obtain ⟨haccepted, hone, htwo⟩ := of_decide_eq_true hfirst
  obtain ⟨a, ha, hmemA⟩ := (Option.any_eq_true _ _).mp hone
  obtain ⟨b, hb, hmemB⟩ := (Option.any_eq_true _ _).mp htwo
  exact ⟨w, hw, first, haccepted, rfl, ⟨a, ha, of_decide_eq_true hmemA⟩,
    ⟨b, hb, of_decide_eq_true hmemB⟩⟩

end Telegram
end HaskellAgent
