import HaskellAgent.Lib.JoinTrimmed
import HaskellAgent.Loop.Events

/-!
# The display journal

What an uncommitted response has shown is kept for display, newest first: text in chunks, and tool
events as they came.  A retraction filters the current attempt and a discard clears it; both stop
at the last restart.  The journal is projected once, in a single pass from its newest entry, which
drops the snapshots that a later event replaces.

The projection that viewers are promised has no journal: it cuts the events of the turn into
attempts, settles each attempt event by event, and keeps of it what nothing later replaces.
-/

open List

namespace HaskellAgent

/-! ### Bounded tool output -/

def toolOutputOmissionMarker : Text := "[earlier tool output truncated]\n".toList

def loopEventTailPayloadBudgetCodeUnits : ℕ := (8 * 1024 * 1024 - 64) / 4

def loopEventTailPayloadCodeUnits : ℕ :=
  loopEventTailPayloadBudgetCodeUnits - toolOutputOmissionMarker.length

/-- A long output keeps its end. -/
def boundLoopToolOutput (output : Text) : Text :=
  if output.length ≤ loopEventTailPayloadBudgetCodeUnits then output
  else toolOutputOmissionMarker ++ output.rtake loopEventTailPayloadCodeUnits

/-! ### The journal -/

def replayableDisplayEvent : LoopEvent → Bool
  | .textDelta _ => true
  | .toolStarted _ => true
  | .toolUpdated _ => true
  | .toolArgumentsUpdated _ => true
  | .toolOutputUpdated _ _ => true
  | .toolFinished _ => true
  | .toolRetracted _ => true
  | _ => false

/-- Entries and text chunks are newest first. -/
inductive DisplayJournal
  | empty
  | text (chunks : List Text) (rest : DisplayJournal)
  | event (event : LoopEvent) (rest : DisplayJournal)

def belongsToTool (callId : Text) : LoopEvent → Bool
  | .toolStarted call => call.callId == callId
  | .toolUpdated call => call.callId == callId
  | .toolArgumentsUpdated call => call.callId == callId
  | .toolOutputUpdated identifier _ => identifier == callId
  | .toolFinished result => result.callId == callId
  | _ => false

def isRestart : LoopEvent → Bool
  | .responseRestarted _ => true
  | _ => false

def retractRawTool (callId : Text) : DisplayJournal → DisplayJournal
  | .empty => .empty
  | .text chunks rest => .text chunks (retractRawTool callId rest)
  | .event event rest =>
    if isRestart event then .event event rest
    else if belongsToTool callId event then retractRawTool callId rest
    else .event event (retractRawTool callId rest)

def recordDisplayEvent (event : LoopEvent) (journal : DisplayJournal) : DisplayJournal :=
  match event with
  | .textDelta delta =>
    match journal with
    | .text chunks rest => .text (delta :: chunks) rest
    | _ => .text [delta] journal
  | .toolOutputUpdated callId output =>
    .event (.toolOutputUpdated callId (boundLoopToolOutput output)) journal
  | .toolFinished result =>
    .event (.toolFinished { result with output := boundLoopToolOutput result.output }) journal
  | .toolRetracted callId => retractRawTool callId journal
  | _ => .event event journal

/-- The pass `go`: the calls whose updates and outputs are already known, and the events kept. -/
def projectJournal : DisplayJournal → List Text → List Text → List LoopEvent → List LoopEvent
  | .empty, _, _, result => result
  | .text chunks rest, updates, outputs, result =>
    projectJournal rest updates outputs (.textDelta chunks.reverse.flatten :: result)
  | .event event rest, updates, outputs, result =>
    let keepUpdate (callId : Text) :=
      if callId ∈ updates then projectJournal rest updates outputs result
      else projectJournal rest (callId :: updates) outputs (event :: result)
    match event with
    | .toolUpdated call => keepUpdate call.callId
    | .toolArgumentsUpdated call => keepUpdate call.callId
    | .toolOutputUpdated callId _ =>
      if callId ∈ outputs then projectJournal rest updates outputs result
      else projectJournal rest updates (callId :: outputs) (event :: result)
    | .toolFinished callResult =>
      projectJournal rest updates (callResult.callId :: outputs) (event :: result)
    | .responseRestarted _ => projectJournal rest [] [] (event :: result)
    | _ => projectJournal rest updates outputs (event :: result)

def displayEventsFromJournal (journal : DisplayJournal) : List LoopEvent :=
  projectJournal journal [] [] []

def discardCurrentDisplayAttempt : DisplayJournal → DisplayJournal
  | .empty => .empty
  | .text _ rest => discardCurrentDisplayAttempt rest
  | .event event rest =>
    if isRestart event then .event event rest else discardCurrentDisplayAttempt rest

/-! ### The visible state of the loop -/

/-- Attempts and their chunks are newest first. -/
structure VisibleLoopState where
  finishedTextAttempts : List (List Text)
  currentTextChunks : List Text
  displayJournal : DisplayJournal
  providerAttemptActive : Bool

def emptyVisibleLoopState : VisibleLoopState where
  finishedTextAttempts := []
  currentTextChunks := []
  displayJournal := .empty
  providerAttemptActive := false

namespace VisibleLoopState

def journalWithEvent (event : LoopEvent) (state : VisibleLoopState) : DisplayJournal :=
  if state.providerAttemptActive && replayableDisplayEvent event then
    recordDisplayEvent event state.displayJournal
  else state.displayJournal

def recordVisibleLoopEvent (event : LoopEvent) (state : VisibleLoopState) : VisibleLoopState :=
  match event with
  | .turnStarted => { state with providerAttemptActive := true, displayJournal := .empty }
  | .turnFinished _ => { state with providerAttemptActive := false, displayJournal := .empty }
  | .textDelta delta =>
    { state with
      currentTextChunks := delta :: state.currentTextChunks
      displayJournal := state.journalWithEvent event }
  | .responseRestarted _ =>
    { state with
      finishedTextAttempts :=
        if state.currentTextChunks.isEmpty then state.finishedTextAttempts
        else state.currentTextChunks :: state.finishedTextAttempts
      currentTextChunks := []
      displayJournal := recordDisplayEvent event state.displayJournal }
  | .responseAttemptDiscarded =>
    { state with
      currentTextChunks := []
      displayJournal := discardCurrentDisplayAttempt state.displayJournal }
  | _ => { state with displayJournal := state.journalWithEvent event }

def visibleAssistantText (state : VisibleLoopState) : Option Text :=
  let text := "\n\n".toList.intercalate
    (((state.finishedTextAttempts.reverse ++ [state.currentTextChunks]).map
      fun chunks => chunks.reverse.flatten).filter fun text => !text.isEmpty)
  if text.isEmpty then none else some text

def visibleDisplayEvents (state : VisibleLoopState) : List LoopEvent :=
  displayEventsFromJournal state.displayJournal

/-- The state after a sequence of events. -/
def ofEvents (events : List LoopEvent) : VisibleLoopState :=
  events.foldl (fun state event => state.recordVisibleLoopEvent event) emptyVisibleLoopState

end VisibleLoopState

/-! ### The naive projection -/

def isTurnBoundary : LoopEvent → Bool
  | .turnStarted => true
  | .turnFinished _ => true
  | _ => false

/-- The events since the last turn started or finished. -/
def currentTurn (events : List LoopEvent) : List LoopEvent :=
  events.rtakeWhile fun event => !isTurnBoundary event

def startsTurn : LoopEvent → Bool
  | .turnStarted => true
  | _ => false

/-- The last boundary started a turn. -/
def turnActive (events : List LoopEvent) : Bool :=
  (events.filter isTurnBoundary).getLast?.any startsTurn

/-- The attempts that were restarted, with the restart's message, and the current attempt. -/
structure Attempts where
  finished : List (List LoopEvent × Text)
  current : List LoopEvent

def Attempts.add (attempts : Attempts) : LoopEvent → Attempts
  | .responseRestarted message =>
    { finished := attempts.finished ++ [(attempts.current, message)], current := [] }
  | event => { attempts with current := attempts.current ++ [event] }

/-- Every attempt is replaced by what `f` makes of it. -/
def Attempts.map (f : List LoopEvent → List LoopEvent) (attempts : Attempts) : Attempts where
  finished := attempts.finished.map fun (attempt, message) => (f attempt, message)
  current := f attempts.current

/-- The attempts in order, with the restarts between them. -/
def Attempts.events (attempts : Attempts) : List LoopEvent :=
  (attempts.finished.flatMap fun (attempt, message) =>
    attempt ++ [.responseRestarted message]) ++ attempts.current

def cutAttempts (events : List LoopEvent) : Attempts := events.foldl Attempts.add ⟨[], []⟩

/-- Text goes on in the last text of an attempt as long as no other event is behind it. -/
def appendText (delta : Text) (attempt : List LoopEvent) : List LoopEvent :=
  match attempt.getLast? with
  | some (.textDelta text) => attempt.dropLast ++ [.textDelta (text ++ delta)]
  | _ => attempt ++ [.textDelta delta]

/-- An event of an attempt takes effect. -/
def settle (attempt : List LoopEvent) (event : LoopEvent) : List LoopEvent :=
  match event with
  | .textDelta delta => appendText delta attempt
  | .toolRetracted callId => attempt.filter fun event => !belongsToTool callId event
  | .responseAttemptDiscarded => []
  | .toolOutputUpdated callId output =>
    attempt ++ [.toolOutputUpdated callId (boundLoopToolOutput output)]
  | .toolFinished result =>
    attempt ++ [.toolFinished { result with output := boundLoopToolOutput result.output }]
  | event => if replayableDisplayEvent event then attempt ++ [event] else attempt

/-- An attempt after its events; outside a turn nothing is shown. -/
def settled (active : Bool) (attempt : List LoopEvent) : List LoopEvent :=
  if active then attempt.foldl settle [] else []

/-- The call whose argument or metadata an event updates. -/
def updatedCall : LoopEvent → Option Text
  | .toolUpdated call => some call.callId
  | .toolArgumentsUpdated call => some call.callId
  | _ => none

/-- The call whose output an event shows or completes. -/
def outputCall : LoopEvent → Option Text
  | .toolOutputUpdated callId _ => some callId
  | .toolFinished result => some result.callId
  | _ => none

/-- A snapshot of a call that is updated, or shown, later. -/
def replaced (updates outputs : List Text) : LoopEvent → Bool
  | .toolUpdated call => call.callId ∈ updates
  | .toolArgumentsUpdated call => call.callId ∈ updates
  | .toolOutputUpdated callId _ => callId ∈ outputs
  | _ => false

/-- The events that nothing later replaces, given the calls updated and shown after all of them. -/
def latest (updates outputs : List Text) : List LoopEvent → List LoopEvent
  | [] => []
  | event :: later =>
    if replaced (later.filterMap updatedCall ++ updates) (later.filterMap outputCall ++ outputs)
        event then latest updates outputs later
    else event :: latest updates outputs later

/-- The projection of a turn's events: attempt by attempt, with the restarts between them. -/
def displayProjection (active : Bool) (events : List LoopEvent) : List LoopEvent :=
  ((cutAttempts events).map fun attempt => latest [] [] (settled active attempt)).events

/-- The text of some events. -/
def eventsText : List LoopEvent → Text
  | [] => []
  | .textDelta delta :: events => delta ++ eventsText events
  | _ :: events => eventsText events

def isDiscard : LoopEvent → Bool
  | .responseAttemptDiscarded => true
  | _ => false

/-- The text deltas of an attempt, without those it discarded. -/
def attemptText (attempt : List LoopEvent) : Text :=
  eventsText (attempt.rtakeWhile fun event => !isDiscard event)

/-- The texts of all attempts. -/
def attemptTexts (events : List LoopEvent) : List Text :=
  let attempts := cutAttempts events
  (attempts.finished.map fun attempt => attemptText attempt.1) ++ [attemptText attempts.current]

/-! ### The pass over the journal -/

/-- The entries of a journal, newest first, with the text of their chunks. -/
def DisplayJournal.nodes : DisplayJournal → List LoopEvent
  | .empty => []
  | .text chunks rest => .textDelta chunks.reverse.flatten :: rest.nodes
  | .event entry rest => entry :: rest.nodes

variable {updates updates' outputs outputs' : List Text}

theorem replaced_congr (hu : ∀ callId, callId ∈ updates ↔ callId ∈ updates')
    (ho : ∀ callId, callId ∈ outputs ↔ callId ∈ outputs') (event : LoopEvent) :
    replaced updates outputs event = replaced updates' outputs' event := by
  cases event <;> simp only [replaced, hu, ho]

/-- Only membership in the sets of later calls matters. -/
theorem latest_congr (hu : ∀ callId, callId ∈ updates ↔ callId ∈ updates')
    (ho : ∀ callId, callId ∈ outputs ↔ callId ∈ outputs') (events : List LoopEvent) :
    latest updates outputs events = latest updates' outputs' events := by
  induction events with
  | nil => rfl
  | cons event later ih =>
    have hreplaced : replaced (later.filterMap updatedCall ++ updates)
        (later.filterMap outputCall ++ outputs) event =
          replaced (later.filterMap updatedCall ++ updates')
            (later.filterMap outputCall ++ outputs') event := by
      apply replaced_congr
      · simp only [mem_append, hu, implies_true]
      · simp only [mem_append, ho, implies_true]
    rw [latest, latest, hreplaced, ih]

/-- **The newest event is kept or replaced, and replaces what it follows.** -/
theorem latest_concat (events : List LoopEvent) (event : LoopEvent) :
    latest updates outputs (events ++ [event]) =
      latest ((updatedCall event).toList ++ updates) ((outputCall event).toList ++ outputs)
          events ++
        if replaced updates outputs event then [] else [event] := by
  have hsingle (f : LoopEvent → Option Text) : [event].filterMap f = (f event).toList := by
    cases h : f event <;> simp [h]
  induction events with
  | nil => rfl
  | cons first later ih =>
    rw [cons_append, latest, latest, filterMap_append, filterMap_append, hsingle,
      hsingle, append_assoc, append_assoc, ih]
    split <;> rfl

/-- No event of the attempts is a restart. -/
def Attempts.RestartFree (attempts : Attempts) : Prop :=
  (∀ event ∈ attempts.current, isRestart event = false) ∧
    ∀ attempt ∈ attempts.finished, ∀ event ∈ attempt.1, isRestart event = false

variable {event : LoopEvent}

/-- The newest event of some attempts is the newest of the current attempt, or the last restart. -/
theorem events_eq_concat {attempts : Attempts} {older : List LoopEvent}
    (h : attempts.events = older ++ [event]) :
    (∃ current, attempts.current = current ++ [event] ∧
      older = Attempts.events { attempts with current := current }) ∨
    (attempts.current = [] ∧ ∃ finished attempt message, event = .responseRestarted message ∧
      attempts.finished = finished ++ [(attempt, message)] ∧
        older = Attempts.events ⟨finished, attempt⟩) := by
  obtain ⟨finished, current⟩ := attempts
  rcases eq_nil_or_concat current with rfl | ⟨current, last, rfl⟩
  · right
    refine ⟨rfl, ?_⟩
    rcases eq_nil_or_concat finished with rfl | ⟨finished, ⟨attempt, message⟩, rfl⟩
    · exact absurd h (append_ne_nil_of_right_ne_nil _ (cons_ne_nil _ _)).symm
    · simp only [Attempts.events, concat_eq_append, flatMap_append, flatMap_cons,
        flatMap_nil, List.append_nil, ← append_assoc] at h
      obtain ⟨holder, hevent⟩ := append_inj' h rfl
      cases hevent
      exact ⟨finished, attempt, message, rfl, concat_eq_append, holder.symm⟩
  · left
    simp only [Attempts.events, concat_eq_append, ← append_assoc] at h
    obtain ⟨holder, hevent⟩ := append_inj' h rfl
    cases hevent
    exact ⟨current, concat_eq_append, holder.symm⟩

/-- One step of the pass, at an event of the current attempt. -/
theorem projectJournal_event (h : isRestart event = false)
    (rest : DisplayJournal) (result : List LoopEvent) :
    projectJournal (.event event rest) updates outputs result =
      if replaced updates outputs event then projectJournal rest updates outputs result
      else projectJournal rest ((updatedCall event).toList ++ updates)
        ((outputCall event).toList ++ outputs) (event :: result) := by
  cases event with
  | responseRestarted message => cases h
  | toolUpdated call | toolArgumentsUpdated call | toolOutputUpdated callId output =>
    simp [projectJournal, replaced, updatedCall, outputCall]
  | _ => rfl

/-- A replaced event replaces nothing that is not replaced already. -/
theorem latest_of_replaced (h : replaced updates outputs event = true)
    (events : List LoopEvent) :
    latest ((updatedCall event).toList ++ updates) ((outputCall event).toList ++ outputs) events =
      latest updates outputs events := by
  apply latest_congr
  · intro callId
    cases event <;> simp_all [replaced, updatedCall]
  · intro callId
    cases event <;> simp_all [replaced, outputCall]

/-- **The pass over the journal keeps what nothing later replaces**, attempt by attempt. -/
theorem projectJournal_eq (journal : DisplayJournal) {attempts : Attempts}
    (hfree : attempts.RestartFree) (h : journal.nodes = attempts.events.reverse)
    (updates outputs : List Text) (result : List LoopEvent) :
    projectJournal journal updates outputs result =
      (attempts.finished.flatMap fun (attempt, message) =>
        latest [] [] attempt ++ [.responseRestarted message]) ++
      latest updates outputs attempts.current ++ result := by
  induction journal generalizing attempts updates outputs result with
  | empty =>
    have hnil : attempts.events = [] := reverse_eq_nil_iff.mp h.symm
    obtain ⟨finished, current⟩ := attempts
    obtain ⟨hfinished, rfl⟩ := append_eq_nil_iff.mp hnil
    cases finished with
    | nil => rfl
    | cons attempt finished => simp at hfinished
  | text chunks rest ih =>
    have hevents : attempts.events = rest.nodes.reverse ++ [.textDelta chunks.reverse.flatten] := by
      rw [← reverse_eq_iff.mpr h.symm.symm, DisplayJournal.nodes, reverse_cons]
    rcases events_eq_concat hevents with ⟨current, hcurrent, hrest⟩ | ⟨-, _, _, _, hevent, -⟩
    · have hfree' : Attempts.RestartFree { attempts with current := current } :=
        ⟨fun event hmem => hfree.1 event (hcurrent ▸ mem_append_left _ hmem), hfree.2⟩
      rw [projectJournal, ih hfree' (by rw [← hrest, reverse_reverse]), hcurrent,
        latest_concat]
      simp [replaced, updatedCall, outputCall]
    · cases hevent
  | event event rest ih =>
    have hevents : attempts.events = rest.nodes.reverse ++ [event] := by
      rw [← reverse_eq_iff.mpr h.symm.symm, DisplayJournal.nodes, reverse_cons]
    rcases events_eq_concat hevents with
      ⟨current, hcurrent, hrest⟩ | ⟨hcurrent, finished, attempt, message, rfl, hfinished, hrest⟩
    · have hfree' : Attempts.RestartFree { attempts with current := current } :=
        ⟨fun event hmem => hfree.1 event (hcurrent ▸ mem_append_left _ hmem), hfree.2⟩
      have hnode : isRestart event = false :=
        hfree.1 event (hcurrent ▸ mem_append_right _ (mem_singleton_self _))
      have hnodes :
          rest.nodes = (Attempts.events { attempts with current := current }).reverse := by
        rw [← hrest, reverse_reverse]
      rw [projectJournal_event hnode, hcurrent, latest_concat]
      split
      · next hreplaced =>
        rw [ih hfree' hnodes, latest_of_replaced hreplaced, List.append_nil]
      · rw [ih hfree' hnodes]
        simp
    · have hfree' : Attempts.RestartFree ⟨finished, attempt⟩ := by
        constructor
        · exact hfree.2 (attempt, message)
            (hfinished ▸ mem_append_right _ (mem_singleton_self _))
        · intro other hmem
          exact hfree.2 other (hfinished ▸ mem_append_left _ hmem)
      rw [projectJournal, ih hfree' (by rw [← hrest, reverse_reverse]), hcurrent, hfinished]
      simp [latest]

/-! ### What recording does to the entries -/

namespace DisplayJournal

/-- Text is only ever stored in text nodes. -/
def WellFormed : DisplayJournal → Prop
  | .empty => True
  | .text _ rest => rest.WellFormed
  | .event entry rest => (∀ delta, entry ≠ .textDelta delta) ∧ rest.WellFormed

variable {journal : DisplayJournal}

theorem nodes_recordText (hwf : journal.WellFormed) (delta : Text) :
    (recordDisplayEvent (.textDelta delta) journal).nodes =
      (appendText delta journal.nodes.reverse).reverse := by
  cases journal with
  | empty | text chunks rest => simp [recordDisplayEvent, nodes, appendText]
  | event entry rest =>
    have happend : appendText delta (rest.nodes.reverse ++ [entry]) =
        rest.nodes.reverse ++ [entry] ++ [.textDelta delta] := by
      unfold appendText
      rw [List.getLast?_concat]
      split
      · next text heq => exact absurd (Option.some.inj heq) (hwf.1 text)
      · rfl
    rw [nodes, reverse_cons, happend]
    simp [recordDisplayEvent, nodes]

/-- The entries of the current attempt, on top of a journal that is empty or ends in a restart. -/
def StartsAttempt (older : List LoopEvent) : Prop :=
  ∀ entry ∈ older.head?, isRestart entry = true

theorem nodes_retract (callId : Text) {attempt older : List LoopEvent}
    (h : journal.nodes = attempt ++ older) (hfree : ∀ entry ∈ attempt, isRestart entry = false)
    (holder : StartsAttempt older) :
    (retractRawTool callId journal).nodes =
      (attempt.filter fun entry => !belongsToTool callId entry) ++ older := by
  induction journal generalizing attempt with
  | empty =>
    obtain ⟨rfl, rfl⟩ := append_eq_nil_iff.mp h.symm
    rfl
  | text chunks rest ih =>
    cases attempt with
    | nil =>
      have hrestart := holder (.textDelta chunks.reverse.flatten)
        (by rw [← nil_append older, ← h]; rfl)
      cases hrestart
    | cons entry attempt =>
      obtain ⟨rfl, hrest⟩ := List.cons.inj h
      rw [retractRawTool, nodes,
        ih hrest fun entry hmem => hfree entry (mem_cons_of_mem _ hmem)]
      rfl
  | event entry rest ih =>
    cases attempt with
    | nil =>
      have hrestart : isRestart entry = true :=
        holder entry (by rw [← nil_append older, ← h]; rfl)
      rw [retractRawTool, if_pos hrestart]
      exact h
    | cons first attempt =>
      obtain ⟨rfl, hrest⟩ := List.cons.inj h
      have hfirst := hfree entry mem_cons_self
      have hrec := ih hrest fun entry hmem => hfree entry (mem_cons_of_mem _ hmem)
      rw [retractRawTool, hfirst, if_neg Bool.false_ne_true, filter_cons]
      cases hbelongs : belongsToTool callId entry with
      | false => simp [nodes, hrec]
      | true => simp [hrec]

theorem nodes_discard {attempt older : List LoopEvent} (h : journal.nodes = attempt ++ older)
    (hfree : ∀ entry ∈ attempt, isRestart entry = false) (holder : StartsAttempt older) :
    (discardCurrentDisplayAttempt journal).nodes = older := by
  induction journal generalizing attempt with
  | empty => exact (append_eq_nil_iff.mp h.symm).2.symm
  | text chunks rest ih =>
    cases attempt with
    | nil =>
      have hrestart := holder (.textDelta chunks.reverse.flatten)
        (by rw [← nil_append older, ← h]; rfl)
      cases hrestart
    | cons entry attempt =>
      exact ih (List.cons.inj h).2 fun entry hmem => hfree entry (mem_cons_of_mem _ hmem)
  | event entry rest ih =>
    cases attempt with
    | nil =>
      have hrestart : isRestart entry = true :=
        holder entry (by rw [← nil_append older, ← h]; rfl)
      rw [discardCurrentDisplayAttempt, if_pos hrestart]
      exact h
    | cons first attempt =>
      obtain ⟨rfl, hrest⟩ := List.cons.inj h
      rw [discardCurrentDisplayAttempt, hfree entry mem_cons_self, if_neg Bool.false_ne_true]
      exact ih hrest fun entry hmem => hfree entry (mem_cons_of_mem _ hmem)

theorem WellFormed.retract (h : journal.WellFormed) (callId : Text) :
    (retractRawTool callId journal).WellFormed := by
  induction journal with
  | empty => trivial
  | text chunks rest ih => exact ih h
  | event entry rest ih =>
    rw [retractRawTool]
    split
    · exact h
    · split
      · exact ih h.2
      · exact ⟨h.1, ih h.2⟩

theorem WellFormed.discard (h : journal.WellFormed) :
    (discardCurrentDisplayAttempt journal).WellFormed := by
  induction journal with
  | empty => trivial
  | text chunks rest ih => exact ih h
  | event entry rest ih =>
    rw [discardCurrentDisplayAttempt]
    split
    · exact h
    · exact ih h.2

theorem WellFormed.record (h : journal.WellFormed) (event : LoopEvent) :
    (recordDisplayEvent event journal).WellFormed := by
  cases event with
  | textDelta delta => cases journal <;> exact h
  | toolRetracted callId => exact h.retract callId
  | _ => exact ⟨by simp, h⟩

end DisplayJournal

/-! ### What settling keeps -/

variable {attempt : List LoopEvent}

/-- What an attempt shows are events for display. -/
theorem replayable_settle (h : ∀ event ∈ attempt, replayableDisplayEvent event = true)
    (event : LoopEvent) : ∀ shown ∈ settle attempt event, replayableDisplayEvent shown = true := by
  intro shown hmem
  cases event with
  | textDelta delta =>
    simp only [settle, appendText] at hmem
    split at hmem
    · rcases mem_append.mp hmem with hold | hnew
      · exact h shown (dropLast_subset _ hold)
      · rw [mem_singleton.mp hnew]
        rfl
    · rcases mem_append.mp hmem with hold | hnew
      · exact h shown hold
      · rw [mem_singleton.mp hnew]
        rfl
  | toolRetracted callId => exact h shown (mem_of_mem_filter hmem)
  | responseAttemptDiscarded => cases hmem
  | toolStarted | toolUpdated | toolArgumentsUpdated | toolOutputUpdated | toolFinished =>
    rcases mem_append.mp hmem with hold | hnew
    · exact h shown hold
    · rw [mem_singleton.mp hnew]
      rfl
  | _ => exact h shown hmem

theorem settled_concat (active : Bool) (event : LoopEvent) :
    settled active (attempt ++ [event]) =
      if active then settle (settled active attempt) event else [] := by
  cases active <;> simp [settled]

theorem replayable_settled (active : Bool) (attempt : List LoopEvent) :
    ∀ event ∈ settled active attempt, replayableDisplayEvent event = true := by
  induction attempt using List.reverseRecOn with
  | nil => simp [settled]
  | append_singleton attempt event ih =>
    rw [settled_concat]
    split
    · exact replayable_settle ih event
    · simp

/-- Restarts and discards are not shown as events of an attempt. -/
theorem not_restart_of_replayable {event : LoopEvent} (h : replayableDisplayEvent event = true) :
    isRestart event = false ∧ isDiscard event = false := by
  cases event <;> first | exact ⟨rfl, rfl⟩ | cases h

theorem restartFree_settled (active : Bool) (attempt : List LoopEvent) :
    ∀ event ∈ settled active attempt, isRestart event = false :=
  fun event hmem => (not_restart_of_replayable (replayable_settled active attempt event hmem)).1

theorem cutAttempts_concat (events : List LoopEvent) (event : LoopEvent) :
    cutAttempts (events ++ [event]) = (cutAttempts events).add event := by
  rw [cutAttempts, foldl_append]
  rfl

theorem Attempts.restartFree_settled (attempts : Attempts) (active : Bool) :
    (attempts.map (settled active)).RestartFree := by
  refine ⟨HaskellAgent.restartFree_settled active _, ?_⟩
  intro attempt hmem
  obtain ⟨_, -, rfl⟩ := List.mem_map.mp hmem
  exact HaskellAgent.restartFree_settled active _

/-- Text goes on in the current attempt: a restart is not text. -/
theorem appendText_append {older : List LoopEvent} (h : DisplayJournal.StartsAttempt older.reverse)
    (delta : Text) : appendText delta (older ++ attempt) = older ++ appendText delta attempt := by
  unfold appendText
  rcases eq_nil_or_concat attempt with rfl | ⟨attempt, last, rfl⟩
  · rw [List.append_nil, List.getLast?_nil]
    split
    · next text heq =>
      rw [← List.head?_reverse] at heq
      have hrestart := h _ heq
      cases hrestart
    · rfl
  · rw [concat_eq_append, ← append_assoc, List.getLast?_concat, List.getLast?_concat]
    split <;> simp

/-! ### The folded state -/

/-- The finished attempts end in a restart. -/
theorem Attempts.startsAttempt (attempts : Attempts) :
    DisplayJournal.StartsAttempt
      (Attempts.events { attempts with current := [] }).reverse := by
  intro entry hentry
  rw [Attempts.events, List.append_nil] at hentry
  rcases eq_nil_or_concat attempts.finished with hnil | ⟨finished, attempt, hconcat⟩
  · rw [hnil] at hentry
    cases hentry
  · rw [hconcat, concat_eq_append] at hentry
    simp at hentry
    rw [← hentry]
    rfl

namespace VisibleLoopState

variable {state : VisibleLoopState} {older : List LoopEvent}

variable {event : LoopEvent}

/-- **An event of the turn settles in the journal's current attempt.** -/
theorem nodes_journalWithEvent (hwf : state.displayJournal.WellFormed)
    (hnodes : state.displayJournal.nodes = (older ++ attempt).reverse)
    (hfree : ∀ entry ∈ attempt, isRestart entry = false)
    (holder : DisplayJournal.StartsAttempt older.reverse)
    (hinactive : state.providerAttemptActive = false → attempt = [])
    (hrestart : isRestart event = false) (hdiscard : isDiscard event = false) :
    (state.journalWithEvent event).nodes =
      (older ++ if state.providerAttemptActive then settle attempt event else []).reverse := by
  cases hactive : state.providerAttemptActive with
  | false => simp [journalWithEvent, hactive, hnodes, hinactive hactive]
  | true =>
    simp only [journalWithEvent, hactive, Bool.true_and, if_true]
    cases event with
    | textDelta delta =>
      rw [replayableDisplayEvent, if_pos rfl, DisplayJournal.nodes_recordText hwf, hnodes,
        reverse_reverse, appendText_append holder]
      rfl
    | toolRetracted callId =>
      rw [reverse_append] at hnodes
      have hretract := DisplayJournal.nodes_retract callId hnodes
        (fun entry hmem => hfree entry (mem_reverse.mp hmem)) holder
      rw [replayableDisplayEvent, if_pos rfl, recordDisplayEvent, hretract, settle,
        reverse_append, filter_reverse]
    | responseRestarted message => cases hrestart
    | responseAttemptDiscarded => cases hdiscard
    | toolStarted | toolUpdated | toolArgumentsUpdated | toolOutputUpdated | toolFinished =>
      simp [replayableDisplayEvent, recordDisplayEvent, DisplayJournal.nodes, hnodes, settle]
    | _ => simpa [replayableDisplayEvent, settle] using hnodes

theorem recordVisible_of_plain (state : VisibleLoopState)
    (hboundary : isTurnBoundary event = false) (hrestart : isRestart event = false)
    (hdiscard : isDiscard event = false) :
    (recordVisibleLoopEvent event state).displayJournal = state.journalWithEvent event ∧
      (recordVisibleLoopEvent event state).providerAttemptActive = state.providerAttemptActive := by
  cases event <;> first | exact ⟨rfl, rfl⟩ | contradiction

/-- The state shows the settled attempts of its turn. -/
structure Shows (state : VisibleLoopState) (active : Bool) (turn : List LoopEvent) : Prop where
  wellFormed : state.displayJournal.WellFormed
  active_eq : state.providerAttemptActive = active
  nodes : state.displayJournal.nodes =
    ((cutAttempts turn).map (settled active)).events.reverse

variable {active : Bool} {turn : List LoopEvent}

theorem journalWithEvent_wellFormed (h : state.displayJournal.WellFormed) (event : LoopEvent) :
    (state.journalWithEvent event).WellFormed := by
  unfold journalWithEvent
  split
  · exact h.record event
  · exact h

/-- **One event of a turn.** -/
theorem Shows.record (h : state.Shows active turn)
    (hboundary : isTurnBoundary event = false) :
    (recordVisibleLoopEvent event state).Shows active (turn ++ [event]) := by
  have hfree := (cutAttempts turn).restartFree_settled active
  have holder := ((cutAttempts turn).map (settled active)).startsAttempt
  have hnodes := h.nodes
  rw [show ((cutAttempts turn).map (settled active)).events =
    Attempts.events { (cutAttempts turn).map (settled active) with current := [] } ++
      settled active (cutAttempts turn).current by
        simp only [Attempts.events, List.append_nil]; rfl] at hnodes
  cases hrestart : isRestart event with
  | true =>
    cases event <;> cases hrestart
    next message =>
    refine ⟨⟨by simp, h.wellFormed⟩, h.active_eq, ?_⟩
    rw [cutAttempts_concat]
    simp [recordVisibleLoopEvent, recordDisplayEvent, DisplayJournal.nodes, h.nodes, Attempts.add,
      Attempts.map, Attempts.events, settled]
  | false =>
    have hadd : ((cutAttempts (turn ++ [event])).map (settled active)).events =
        Attempts.events { (cutAttempts turn).map (settled active) with current := [] } ++
          if active then settle (settled active (cutAttempts turn).current) event else [] := by
      have hcut : (cutAttempts turn).add event =
          { cutAttempts turn with current := (cutAttempts turn).current ++ [event] } := by
        cases event <;> first | rfl | cases hrestart
      rw [cutAttempts_concat, hcut, ← settled_concat]
      simp only [Attempts.events, Attempts.map, List.append_nil]
    cases hdiscard : isDiscard event with
    | true =>
      cases event <;> cases hdiscard
      refine ⟨h.wellFormed.discard, h.active_eq, ?_⟩
      rw [reverse_append] at hnodes
      have hempty := DisplayJournal.nodes_discard hnodes
        (fun entry hmem => hfree.1 entry (mem_reverse.mp hmem)) holder
      rw [hadd]
      simpa [settle, recordVisibleLoopEvent] using hempty
    | false =>
      obtain ⟨hjournal, hactive⟩ := state.recordVisible_of_plain hboundary hrestart hdiscard
      refine ⟨hjournal ▸ journalWithEvent_wellFormed h.wellFormed event,
        hactive.trans h.active_eq, ?_⟩
      have hinactive : state.providerAttemptActive = false →
          settled active (cutAttempts turn).current = [] := by
        intro hoff
        rw [← h.active_eq, hoff]
        rfl
      rw [hjournal, hadd, ← h.active_eq]
      rw [← h.active_eq] at hnodes hinactive holder hfree
      exact nodes_journalWithEvent h.wellFormed hnodes hfree.1 holder hinactive hrestart hdiscard

end VisibleLoopState

theorem currentTurn_concat (events : List LoopEvent) (event : LoopEvent) :
    currentTurn (events ++ [event]) =
      if isTurnBoundary event then [] else currentTurn events ++ [event] := by
  rw [currentTurn, rtakeWhile_concat]
  cases isTurnBoundary event <;> rfl

/-- Whether a turn is active changes with its boundaries only. -/
theorem turnActive_concat (events : List LoopEvent) {event : LoopEvent}
    (h : isTurnBoundary event = false) : turnActive (events ++ [event]) = turnActive events := by
  rw [turnActive, turnActive, filter_append, filter_singleton, h]
  simp

namespace VisibleLoopState

theorem ofEvents_concat (events : List LoopEvent) (event : LoopEvent) :
    ofEvents (events ++ [event]) = recordVisibleLoopEvent event (ofEvents events) := by
  rw [ofEvents, foldl_append]
  rfl

/-- **The folded state shows the settled attempts of the current turn.** -/
theorem shows_ofEvents (events : List LoopEvent) :
    (ofEvents events).Shows (turnActive events) (currentTurn events) := by
  induction events using List.reverseRecOn with
  | nil => exact ⟨trivial, rfl, rfl⟩
  | append_singleton events event ih =>
    rw [ofEvents_concat, currentTurn_concat]
    cases hboundary : isTurnBoundary event with
    | false =>
      rw [turnActive_concat events hboundary]
      exact ih.record hboundary
    | true =>
      have hactive : turnActive (events ++ [event]) = startsTurn event := by
        rw [turnActive, filter_append, filter_cons_of_pos hboundary, filter_nil,
          List.getLast?_concat]
        rfl
      rw [hactive]
      cases event <;> first | exact ⟨trivial, rfl, rfl⟩ | cases hboundary

/-- **What is shown is the projection of the current turn.** -/
theorem visibleDisplayEvents_eq (events : List LoopEvent) :
    (ofEvents events).visibleDisplayEvents =
      displayProjection (turnActive events) (currentTurn events) := by
  have hshows := shows_ofEvents events
  have hfree := (cutAttempts (currentTurn events)).restartFree_settled (turnActive events)
  rw [visibleDisplayEvents, displayEventsFromJournal, projectJournal_eq _ hfree hshows.nodes]
  simp [displayProjection, Attempts.map, Attempts.events, flatMap_map]

end VisibleLoopState

/-! ### The text of the attempts -/

theorem eventsText_append (left right : List LoopEvent) :
    eventsText (left ++ right) = eventsText left ++ eventsText right := by
  induction left with
  | nil => rfl
  | cons event left ih => cases event <;> simp [eventsText, ih]

theorem eventsText_latest (updates outputs : List Text) (events : List LoopEvent) :
    eventsText (latest updates outputs events) = eventsText events := by
  induction events with
  | nil => rfl
  | cons event later ih =>
    rw [latest]
    split
    · next hreplaced =>
      rw [ih]
      cases event <;> first | rfl | cases hreplaced
    · cases event <;> simp [eventsText, ih]

theorem eventsText_retract (callId : Text) (events : List LoopEvent) :
    eventsText (events.filter fun event => !belongsToTool callId event) = eventsText events := by
  induction events with
  | nil => rfl
  | cons event events ih =>
    rw [filter_cons]
    split
    · cases event <;> simp [eventsText, ih]
    · next hbelongs => cases event <;> simp_all [eventsText, belongsToTool]

theorem eventsText_appendText (delta : Text) (attempt : List LoopEvent) :
    eventsText (appendText delta attempt) = eventsText attempt ++ delta := by
  unfold appendText
  split
  · next text hlast =>
    obtain ⟨front, rfl⟩ := List.getLast?_eq_some_iff.mp hlast
    simp [eventsText_append, eventsText]
  · simp [eventsText_append, eventsText]

theorem attemptText_concat (attempt : List LoopEvent) (event : LoopEvent) :
    attemptText (attempt ++ [event]) =
      if isDiscard event then [] else attemptText attempt ++ eventsText [event] := by
  rw [attemptText, rtakeWhile_concat]
  cases isDiscard event with
  | true => rfl
  | false => simp [attemptText, eventsText_append]

/-- Settling an event adds its text, or discards all of it. -/
theorem eventsText_settle (attempt : List LoopEvent) (event : LoopEvent) :
    eventsText (settle attempt event) =
      if isDiscard event then [] else eventsText attempt ++ eventsText [event] := by
  cases event with
  | textDelta delta => simp [settle, eventsText_appendText, eventsText, isDiscard]
  | toolRetracted callId => simp [settle, eventsText_retract, eventsText, isDiscard]
  | _ => simp [settle, replayableDisplayEvent, eventsText_append, eventsText, isDiscard]

/-- **An attempt shows the text it was sent and did not discard.** -/
theorem eventsText_settled (attempt : List LoopEvent) :
    eventsText (settled true attempt) = attemptText attempt := by
  induction attempt using List.reverseRecOn with
  | nil => rfl
  | append_singleton attempt event ih =>
    rw [settled_concat, if_pos rfl, eventsText_settle, attemptText_concat, ih]

namespace VisibleLoopState

/-- Attempts without text do not count. -/
def nonEmpty (texts : List Text) : List Text := texts.filter fun text => !text.isEmpty

def chunksText (chunks : List Text) : Text := chunks.reverse.flatten

/-- The state keeps the texts of the attempts. -/
structure KeepsTexts (state : VisibleLoopState) (attempts : Attempts) : Prop where
  finished : nonEmpty (state.finishedTextAttempts.reverse.map chunksText) =
    nonEmpty (attempts.finished.map fun attempt => attemptText attempt.1)
  current : chunksText state.currentTextChunks = attemptText attempts.current

theorem KeepsTexts.record {state : VisibleLoopState} {attempts : Attempts}
    (h : state.KeepsTexts attempts) (event : LoopEvent) :
    (recordVisibleLoopEvent event state).KeepsTexts (attempts.add event) := by
  cases event with
  | textDelta delta =>
    refine ⟨h.finished, ?_⟩
    have hcurrent := h.current
    simp only [chunksText] at hcurrent
    simp [recordVisibleLoopEvent, Attempts.add, attemptText_concat, isDiscard, eventsText,
      chunksText, hcurrent]
  | responseRestarted message =>
    refine ⟨?_, rfl⟩
    have hfinished := h.finished
    have hcurrent := h.current
    simp only [nonEmpty, map_reverse, filter_reverse] at hfinished
    cases hchunks : state.currentTextChunks with
    | nil =>
      have hnone : attemptText attempts.current = [] := by
        rw [← hcurrent, hchunks]
        rfl
      simp [recordVisibleLoopEvent, Attempts.add, nonEmpty, hchunks, hfinished, hnone]
    | cons chunk chunks =>
      simp [recordVisibleLoopEvent, Attempts.add, nonEmpty, hfinished, ← hcurrent, hchunks]
  | responseAttemptDiscarded =>
    refine ⟨h.finished, ?_⟩
    simp [recordVisibleLoopEvent, Attempts.add, attemptText_concat, isDiscard, chunksText]
  | _ =>
    refine ⟨h.finished, ?_⟩
    simp [recordVisibleLoopEvent, Attempts.add, attemptText_concat, isDiscard, eventsText,
      h.current]

theorem keepsTexts_ofEvents (events : List LoopEvent) :
    (ofEvents events).KeepsTexts (cutAttempts events) := by
  induction events using List.reverseRecOn with
  | nil => exact ⟨rfl, rfl⟩
  | append_singleton events event ih =>
    rw [ofEvents_concat, cutAttempts_concat]
    exact ih.record event

theorem visibleAssistantText_eq (events : List LoopEvent) :
    (ofEvents events).visibleAssistantText =
      if nonEmpty (attemptTexts events) = [] then none
      else some ("\n\n".toList.intercalate (nonEmpty (attemptTexts events))) := by
  have hkeeps := keepsTexts_ofEvents events
  have htexts : nonEmpty (((ofEvents events).finishedTextAttempts.reverse ++
      [(ofEvents events).currentTextChunks]).map chunksText) = nonEmpty (attemptTexts events) := by
    have hfinished := hkeeps.finished
    simp only [nonEmpty, map_reverse, filter_reverse] at hfinished
    simp [nonEmpty, attemptTexts, hfinished, hkeeps.current]
  have hne : ∀ text ∈ nonEmpty (attemptTexts events), text ≠ [] := by
    intro text hmem hnil
    have hkept := (mem_filter.mp hmem).2
    rw [hnil] at hkept
    cases hkept
  have hempty : "\n\n".toList.intercalate (nonEmpty (attemptTexts events)) = [] ↔
      nonEmpty (attemptTexts events) = [] := List.intercalate_eq_nil_iff hne
  change (if List.isEmpty ("\n\n".toList.intercalate (nonEmpty (List.map chunksText _)))
    then none else some ("\n\n".toList.intercalate (nonEmpty (List.map chunksText _)))) = _
  rw [htexts]
  by_cases hnil : nonEmpty (attemptTexts events) = []
  · rw [if_pos hnil, if_pos (List.isEmpty_iff.mpr (hempty.mpr hnil))]
  · rw [if_neg hnil, if_neg fun h => hnil (hempty.mp (List.isEmpty_iff.mp h))]

end VisibleLoopState

/-! ### The projection -/

theorem foldl_add_of_restartFree {events : List LoopEvent}
    (h : ∀ event ∈ events, isRestart event = false) (attempts : Attempts) :
    events.foldl Attempts.add attempts =
      { attempts with current := attempts.current ++ events } := by
  induction events generalizing attempts with
  | nil => simp
  | cons event events ih =>
    have hadd : attempts.add event = { attempts with current := attempts.current ++ [event] } := by
      have hevent := h event mem_cons_self
      cases event <;> first | rfl | cases hevent
    rw [foldl_cons, ih fun event hmem => h event (mem_cons_of_mem _ hmem), hadd]
    simp

/-- **Cutting gives the attempts back.** -/
theorem cutAttempts_events {attempts : Attempts} (h : attempts.RestartFree) :
    cutAttempts attempts.events = attempts := by
  obtain ⟨finished, current⟩ := attempts
  induction finished using List.reverseRecOn generalizing current with
  | nil =>
    rw [cutAttempts, Attempts.events, flatMap_nil, nil_append,
      foldl_add_of_restartFree h.1]
    rfl
  | append_singleton finished attempt ih =>
    obtain ⟨attempt, message⟩ := attempt
    have hlast : Attempts.RestartFree ⟨finished, attempt⟩ := by
      constructor
      · exact h.2 (attempt, message) (mem_append_right _ (mem_singleton_self _))
      · exact fun other hmem => h.2 other (mem_append_left _ hmem)
    have hsplit : Attempts.events ⟨finished ++ [(attempt, message)], current⟩ =
        (Attempts.events ⟨finished, attempt⟩ ++ [.responseRestarted message]) ++ current := by
      simp [Attempts.events]
    have hcut := ih attempt hlast
    rw [cutAttempts] at hcut
    rw [cutAttempts, hsplit, foldl_append, foldl_append, hcut,
      foldl_add_of_restartFree h.1]
    simp [Attempts.add]

theorem latest_subset (updates outputs : List Text) (events : List LoopEvent) :
    latest updates outputs events ⊆ events := by
  induction events with
  | nil => exact List.Subset.refl _
  | cons event later ih =>
    rw [latest]
    split
    · exact subset_cons_of_subset _ ih
    · exact cons_subset_cons _ ih

theorem Attempts.RestartFree.latest {attempts : Attempts} (h : attempts.RestartFree) :
    (attempts.map (latest [] [])).RestartFree := by
  constructor
  · exact fun event hmem => h.1 event (latest_subset [] [] _ hmem)
  · intro attempt hmem event hevent
    obtain ⟨original, horiginal, rfl⟩ := List.mem_map.mp hmem
    exact h.2 original horiginal event (latest_subset [] [] _ hevent)

/-- An attempt without discards has all of its text. -/
theorem attemptText_of_no_discard {attempt : List LoopEvent}
    (h : ∀ event ∈ attempt, isDiscard event = false) :
    attemptText attempt = eventsText attempt := by
  rw [attemptText, rtakeWhile_eq_self_iff.mpr]
  intro event hmem
  rw [h event hmem]
  rfl

/-- **A shown attempt has the text of the attempt.** -/
theorem attemptText_shown (active : Bool) (attempt : List LoopEvent) :
    attemptText (latest [] [] (settled active attempt)) =
      if active then attemptText attempt else [] := by
  have hshown : ∀ event ∈ latest [] [] (settled active attempt), isDiscard event = false := by
    intro event hmem
    have hreplayable := replayable_settled active attempt event (latest_subset [] [] _ hmem)
    exact (not_restart_of_replayable hreplayable).2
  rw [attemptText_of_no_discard hshown, eventsText_latest]
  cases active with
  | true => rw [eventsText_settled, if_pos rfl]
  | false => rfl

theorem attemptTexts_displayProjection (active : Bool) (events : List LoopEvent) :
    attemptTexts (displayProjection active events) =
      (attemptTexts events).map fun text => if active then text else [] := by
  have hfree := ((cutAttempts events).restartFree_settled active).latest
  have hprojection : displayProjection active events =
      (((cutAttempts events).map (settled active)).map (latest [] [])).events := by
    simp only [displayProjection, Attempts.map, List.map_map]
    rfl
  rw [attemptTexts, hprojection, cutAttempts_events hfree]
  simp [attemptTexts, Attempts.map, attemptText_shown]

open VisibleLoopState in
/-- **The display journal is the projection of the current turn.**  Whatever events were folded, the
state shows the projection of the events since the last turn boundary, attempt by attempt; each
attempt shows the text it was sent and did not discard, if a turn is active; and the assistant's
text is that of all attempts with text. -/
theorem display_is_projection (events : List LoopEvent) :
    (ofEvents events).visibleDisplayEvents =
        displayProjection (turnActive events) (currentTurn events) ∧
      attemptTexts (ofEvents events).visibleDisplayEvents =
        (attemptTexts (currentTurn events)).map
          (fun text => if turnActive events then text else []) ∧
      (ofEvents events).visibleAssistantText =
        if nonEmpty (attemptTexts events) = [] then none
        else some ("\n\n".toList.intercalate (nonEmpty (attemptTexts events))) := by
  refine ⟨visibleDisplayEvents_eq events, ?_, visibleAssistantText_eq events⟩
  rw [visibleDisplayEvents_eq, attemptTexts_displayProjection]

theorem length_boundLoopToolOutput (output : Text) :
    (boundLoopToolOutput output).length ≤ loopEventTailPayloadBudgetCodeUnits := by
  unfold boundLoopToolOutput
  split
  · assumption
  · rw [length_append, List.rtake, length_drop]
    have hmarker : toolOutputOmissionMarker.length = 32 := by decide
    simp only [loopEventTailPayloadCodeUnits, hmarker, loopEventTailPayloadBudgetCodeUnits]
    omega

def exampleTurnOutput : TurnOutput where
  responseId := []
  toolCalls := []
  assistantText := none
  tokenUsage := ⟨0, 0, 0⟩
  contextUsage := none
  telemetrySummary := none
  completion := .turnCompleted

/-- A text delta that comes after the turn has finished. -/
def exampleLateText : List LoopEvent :=
  [.turnStarted, .turnFinished exampleTurnOutput, .textDelta "late".toList]

open VisibleLoopState in
/-- **Not every event since the last boundary is shown**: nothing is shown after a turn has
finished, and of an output beyond the budget only the end. -/
theorem late_text_and_long_output_not_shown :
    (currentTurn exampleLateText = [.textDelta "late".toList] ∧
      displayProjection true (currentTurn exampleLateText) = [.textDelta "late".toList] ∧
      (ofEvents exampleLateText).visibleDisplayEvents = []) ∧
    ∃ output, (ofEvents [.turnStarted, .toolOutputUpdated [] output]).visibleDisplayEvents ≠
      [.toolOutputUpdated [] output] := by
  refine ⟨⟨rfl, rfl, rfl⟩, List.replicate (loopEventTailPayloadBudgetCodeUnits + 1) 'x', ?_⟩
  intro hshown
  have hevents : [LoopEvent.toolOutputUpdated [] (boundLoopToolOutput
      (List.replicate (loopEventTailPayloadBudgetCodeUnits + 1) 'x'))] =
        [.toolOutputUpdated [] (List.replicate (loopEventTailPayloadBudgetCodeUnits + 1) 'x')] :=
    hshown
  have hlength := length_boundLoopToolOutput
    (List.replicate (loopEventTailPayloadBudgetCodeUnits + 1) 'x')
  rw [List.cons.injEq, LoopEvent.toolOutputUpdated.injEq] at hevents
  rw [hevents.1.2, length_replicate] at hlength
  omega

end HaskellAgent
