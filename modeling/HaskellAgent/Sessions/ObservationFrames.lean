import HaskellAgent.Sessions.Framing
import HaskellAgent.Sessions.ObservationJournal

/-!
# The frames of an observed session

A frame is sent as JSON in an envelope.  The journal bounds the characters of its events, and
escaping makes them at most six times as long, so every envelope is within the limit of a frame,
for a session identifier that is not itself longer than that.
-/

open List Option Machine

namespace HaskellAgent
namespace Observation

open Json Framing

/-! ### The envelope -/

def showState : SessionObservationState → Text
  | .running => "ObservationRunning".toList
  | .waiting => "ObservationWaiting".toList
  | .completed => "ObservationCompleted".toList
  | .interrupted => "ObservationInterrupted".toList

def showKind : SessionObservationEventKind → Text
  | .text => "ObservationText".toList
  | .reasoning => "ObservationReasoning".toList
  | .plan => "ObservationPlan".toList
  | .activity => "ObservationActivity".toList
  | .warning => "ObservationWarning".toList
  | .toolStarted => "ObservationToolStarted".toList
  | .toolUpdated => "ObservationToolUpdated".toList
  | .toolOutput => "ObservationToolOutput".toList
  | .toolFinished => "ObservationToolFinished".toList
  | .toolRetracted => "ObservationToolRetracted".toList
  | .responseRestarted => "ObservationResponseRestarted".toList
  | .responseDiscarded => "ObservationResponseDiscarded".toList
  | .responseFailed => "ObservationResponseFailed".toList
  | .agentStarted => "ObservationAgentStarted".toList
  | .agentOutput => "ObservationAgentOutput".toList
  | .agentFinished => "ObservationAgentFinished".toList

-- members stand in the order of their keys
def eventJson (event : SessionObservationEvent) : Json :=
  .object
    [("arguments".toList, .string event.arguments),
      ("argumentsEncrypted".toList, .bool event.argumentsEncrypted),
      ("identifier".toList, .string event.identifier),
      ("isAsync".toList, .bool event.isAsync),
      ("isError".toList, .bool event.isError),
      ("isTruncated".toList, .bool event.isTruncated),
      ("kind".toList, .string (showKind event.kind)),
      ("name".toList, .string event.name),
      ("summary".toList, .string event.summary),
      ("text".toList, .string event.text)]

def frameJson (frame : SessionObservationFrame) : Json :=
  .object
    [("durableTurnCount".toList, .number frame.durableTurnCount.toInt 0),
      ("events".toList, .array (frame.events.map eventJson)),
      ("generationStart".toList, .number frame.generationStart.toInt 0),
      ("ownerID".toList, .string frame.ownerID),
      ("reset".toList, .bool frame.reset),
      ("sequence".toList, .number frame.sequence 0),
      ("state".toList, .string (showState frame.state)),
      ("truncated".toList, .bool frame.truncated),
      ("turnID".toList, .string frame.turnID),
      ("userText".toList, .string frame.userText)]

def envelopeJson (sessionID : Text) (frame : SessionObservationFrame) : Json :=
  .object
    [("frame".toList, frameJson frame), ("sessionID".toList, .string sessionID),
      ("version".toList, .number 1 0)]

/-- Integers are the only numbers of an envelope. -/
def encodeInteger (coefficient exponent : ℤ) : Text :=
  renderInt (coefficient * 10 ^ exponent.toNat)

def envelopeBytes (sessionID : Text) (frame : SessionObservationFrame) : Bytes :=
  encodeUtf8 (render encodeInteger (envelopeJson sessionID frame))

/-! ### Its size -/

theorem utf8Length_showKind_le (kind : SessionObservationEventKind) :
    utf8Length (showKind kind) ≤ 28 := by
  cases kind <;> decide

theorem utf8Length_showState_le (state : SessionObservationState) :
    utf8Length (showState state) ≤ 22 := by
  cases state <;> decide

theorem utf8Length_render_bool_le (value : Bool) :
    utf8Length (render encodeInteger (.bool value)) ≤ 5 := by
  cases value <;> decide

/-- Escaping the texts of an event costs at most six times the bytes counted for it. -/
theorem utf8Length_eventJson_le (event : SessionObservationEvent) :
    (utf8Length (render encodeInteger (eventJson event)) : ℤ) + 1 ≤ 6 * eventBytes event := by
  have h₁ := utf8Length_renderString_le event.arguments
  have h₂ := utf8Length_renderString_le event.identifier
  have h₃ := utf8Length_renderString_le event.name
  have h₄ := utf8Length_renderString_le event.summary
  have h₅ := utf8Length_renderString_le event.text
  have h₆ := utf8Length_renderString_le (showKind event.kind)
  have h₇ := utf8Length_showKind_le event.kind
  have b₁ := utf8Length_render_bool_le event.argumentsEncrypted
  have b₂ := utf8Length_render_bool_le event.isAsync
  have b₃ := utf8Length_render_bool_le event.isError
  have b₄ := utf8Length_render_bool_le event.isTruncated
  have hkeys : utf8Length (renderString "arguments".toList) = 11 ∧
      utf8Length (renderString "argumentsEncrypted".toList) = 20 ∧
      utf8Length (renderString "identifier".toList) = 12 ∧
      utf8Length (renderString "isAsync".toList) = 9 ∧
      utf8Length (renderString "isError".toList) = 9 ∧
      utf8Length (renderString "isTruncated".toList) = 13 ∧
      utf8Length (renderString "kind".toList) = 6 ∧
      utf8Length (renderString "name".toList) = 6 ∧
      utf8Length (renderString "summary".toList) = 9 ∧
      utf8Length (renderString "text".toList) = 6 := by decide
  have hsign : '{'.utf8Size = 1 ∧ '}'.utf8Size = 1 ∧ ','.utf8Size = 1 ∧ ':'.utf8Size = 1 := by
    decide
  obtain ⟨k₁, k₂, k₃, k₄, k₅, k₆, k₇, k₈, k₉, k₁₀⟩ := hkeys
  obtain ⟨s₁, s₂, s₃, s₄⟩ := hsign
  have hobject : utf8Length (render encodeInteger (eventJson event)) =
      122 + utf8Length (renderString event.arguments) +
        utf8Length (render encodeInteger (.bool event.argumentsEncrypted)) +
        utf8Length (renderString event.identifier) +
        utf8Length (render encodeInteger (.bool event.isAsync)) +
        utf8Length (render encodeInteger (.bool event.isError)) +
        utf8Length (render encodeInteger (.bool event.isTruncated)) +
        utf8Length (renderString (showKind event.kind)) +
        utf8Length (renderString event.name) + utf8Length (renderString event.summary) +
        utf8Length (renderString event.text) := by
    simp only [eventJson, render_object, renderMembers, render_string, utf8Length_cons,
      utf8Length_append, utf8Length_nil, k₁, k₂, k₃, k₄, k₅, k₆, k₇, k₈, k₉, k₁₀, s₁, s₂, s₃, s₄]
    omega
  simp only [eventBytes, textBytes, map_cons, map_nil, sum_cons, sum_nil]
  omega

/-- What the publication says of its own fields. -/
structure Sendable (frame : SessionObservationFrame) : Prop where
  ownerID_length : frame.ownerID.length ≤ 64
  turnID_length : frame.turnID.length ≤ 64
  sequence_lt : frame.sequence < 2 ^ 64
  userText_length : frame.userText.length ≤ fieldCharacterLimit

theorem utf8Length_renderString_le_length (s : Text) :
    utf8Length (renderString s) ≤ 2 + 6 * s.length := by
  have hquote : '"'.utf8Size = 1 := by decide
  have hescaped := utf8Length_flatMap_escapeChar_le_length s
  simp only [renderString, utf8Length_cons, utf8Length_append, utf8Length_nil, hquote]
  omega

/-- The events of a frame, as the bytes counted for them. -/
theorem utf8Length_eventsJson_le (events : List SessionObservationEvent) :
    (utf8Length (renderElements encodeInteger (events.map eventJson)) : ℤ) ≤
      6 * (events.map eventBytes).sum := by
  have helements := utf8Length_renderElements_le encodeInteger (events.map eventJson)
  have hsum : (((events.map eventJson).map fun x =>
      utf8Length (render encodeInteger x) + 1).sum : ℤ) ≤ 6 * (events.map eventBytes).sum := by
    clear helements
    induction events with
    | nil => exact le_refl 0
    | cons event rest ih =>
      have hevent := utf8Length_eventJson_le event
      simp only [map_cons, sum_cons, Nat.cast_add, Nat.cast_one] at ih ⊢
      omega
  omega

theorem utf8Length_encodeInteger_le {n : ℤ} (h : n.natAbs < 10 ^ 20) :
    utf8Length (encodeInteger n 0) ≤ 84 := by
  have hn : encodeInteger n 0 = renderInt n := by simp [encodeInteger]
  rw [hn]
  exact utf8Length_renderInt_le h

theorem natAbs_toInt_lt (n : Int64) : n.toInt.natAbs < 10 ^ 20 := by
  have hlow := n.le_toInt
  have hhigh := n.toInt_lt
  omega

theorem length_envelopeBytes_le {sessionID : Text} (hsession : utf8Length sessionID ≤ 2 ^ 20)
    {frame : SessionObservationFrame} (hframe : Sendable frame)
    (hevents : (frame.events.map eventBytes).sum ≤ retainedByteLimit) :
    (envelopeBytes sessionID frame).length ≤ maximumFrameBytes := by
  have h₁ := utf8Length_encodeInteger_le (natAbs_toInt_lt frame.durableTurnCount)
  have h₂ := utf8Length_encodeInteger_le (natAbs_toInt_lt frame.generationStart)
  have h₃ : utf8Length (encodeInteger frame.sequence 0) ≤ 84 :=
    utf8Length_encodeInteger_le (by have hlt := hframe.sequence_lt; omega)
  have h₄ := utf8Length_eventsJson_le frame.events
  have h₅ := utf8Length_renderString_le_length frame.ownerID
  have h₆ := utf8Length_renderString_le_length frame.turnID
  have h₇ := utf8Length_renderString_le_length frame.userText
  have h₈ := utf8Length_renderString_le (showState frame.state)
  have h₉ := utf8Length_showState_le frame.state
  have h₁₀ := utf8Length_renderString_le sessionID
  have b₁ := utf8Length_render_bool_le frame.reset
  have b₂ := utf8Length_render_bool_le frame.truncated
  have hversion : utf8Length (encodeInteger 1 0) = 1 := by decide
  have hkeys : utf8Length (renderString "durableTurnCount".toList) = 18 ∧
      utf8Length (renderString "events".toList) = 8 ∧
      utf8Length (renderString "generationStart".toList) = 17 ∧
      utf8Length (renderString "ownerID".toList) = 9 ∧
      utf8Length (renderString "reset".toList) = 7 ∧
      utf8Length (renderString "sequence".toList) = 10 ∧
      utf8Length (renderString "state".toList) = 7 ∧
      utf8Length (renderString "truncated".toList) = 11 ∧
      utf8Length (renderString "turnID".toList) = 8 ∧
      utf8Length (renderString "userText".toList) = 10 ∧
      utf8Length (renderString "frame".toList) = 7 ∧
      utf8Length (renderString "sessionID".toList) = 11 ∧
      utf8Length (renderString "version".toList) = 9 := by decide
  have hsign : '{'.utf8Size = 1 ∧ '}'.utf8Size = 1 ∧ ','.utf8Size = 1 ∧ ':'.utf8Size = 1 ∧
      '['.utf8Size = 1 ∧ ']'.utf8Size = 1 := by decide
  obtain ⟨k₁, k₂, k₃, k₄, k₅, k₆, k₇, k₈, k₉, k₁₀, k₁₁, k₁₂, k₁₃⟩ := hkeys
  obtain ⟨s₁, s₂, s₃, s₄, s₅, s₆⟩ := hsign
  rw [envelopeBytes, length_encodeUtf8]
  simp only [envelopeJson, frameJson, render_object, renderMembers, render_string, render_number,
    render_array, utf8Length_cons, utf8Length_append, utf8Length_nil, hversion, k₁, k₂, k₃, k₄, k₅,
    k₆, k₇, k₈, k₉, k₁₀, k₁₁, k₁₂, k₁₃, s₁, s₂, s₃, s₄, s₅, s₆]
  have hlimit : retainedByteLimit = 4194304 := rfl
  have hmaximum : maximumFrameBytes = 33554432 := rfl
  have hcharacters : fieldCharacterLimit = 65536 := rfl
  have howner := hframe.ownerID_length
  have hturn := hframe.turnID_length
  have huser := hframe.userText_length
  omega

theorem length_envelopeBytes_pos (sessionID : Text) (frame : SessionObservationFrame) :
    0 < (envelopeBytes sessionID frame).length := by
  have hbrace : '{'.utf8Size = 1 := by decide
  rw [envelopeBytes, length_encodeUtf8, envelopeJson, render_object, utf8Length_cons, hbrace]
  omega

/-- A frame has some of the retained events. -/
theorem events_frameSince_le {publication : PublicationState} (hbounded : Bounded publication)
    (previous : Option (Text × ℕ)) :
    ((frameSince previous publication).events.map eventBytes).sum ≤ retainedByteLimit := by
  obtain ⟨selected, hselected, hevents⟩ : ∃ selected : List RetainedEvent,
      selected.Sublist publication.retained ∧
        (frameSince previous publication).events = selected.map (·.event) := by
    refine ⟨if (frameSince previous publication).reset = true then publication.retained
      else publication.retained.filter fun event =>
        decide (previous.elim 0 (·.2) < event.eventSequence), ?_, rfl⟩
    split
    · exact List.Sublist.refl _
    · exact filter_sublist
  have hsizes : (selected.map (·.event)).map eventBytes = selected.map (·.eventSize) := by
    rw [List.map_map]
    refine map_congr_left fun event hevent => ?_
    exact (hbounded.sized event (hselected.subset hevent)).symm
  have hnonneg : ∀ size ∈ publication.retained.map (·.eventSize), 0 ≤ size := by
    intro size hsize
    obtain ⟨event, hevent, rfl⟩ := List.mem_map.mp hsize
    simp only [hbounded.sized event hevent, eventBytes]
    omega
  calc ((frameSince previous publication).events.map eventBytes).sum
      = (selected.map (·.eventSize)).sum := by rw [hevents, hsizes]
    _ ≤ (publication.retained.map (·.eventSize)).sum :=
        (hselected.map _).sum_le_sum hnonneg
    _ = publication.retainedBytes := hbounded.bytes_eq.symm
    _ ≤ retainedByteLimit := hbounded.bytes_le

/-! ### Every run -/

theorem sendable_frameSince {publication : PublicationState} (h : Sendable publication.frame)
    (previous : Option (Text × ℕ)) : Sendable (frameSince previous publication) :=
  ⟨h.ownerID_length, h.turnID_length, h.sequence_lt, h.userText_length⟩

theorem sendable_update {frame frame' : SessionObservationFrame} (h : Sendable frame)
    (howner : frame'.ownerID = frame.ownerID) (hturn : frame'.turnID = frame.turnID)
    (hsequence : frame'.sequence = nextSequence frame.sequence)
    (huser : frame'.userText = frame.userText) : Sendable frame' where
  ownerID_length := howner ▸ h.ownerID_length
  turnID_length := hturn ▸ h.turnID_length
  sequence_lt := hsequence ▸ Nat.mod_lt _ (by decide)
  userText_length := huser ▸ h.userText_length

theorem sendable_step {world world' : ObservedWorld} {action : Action}
    (h : Sendable world.publication.frame) (hbounded : Bounded world.publication)
    (hstep : world.step action = some world') : Sendable world'.publication.frame := by
  cases action with
  | beginTurn turnID generationStart durableTurnCount userText =>
    obtain ⟨hfresh, hworld⟩ := ite_none_right_eq_some.mp hstep
    cases hworld
    refine ⟨h.ownerID_length, le_of_eq (isFreshIdentifier_iff hfresh).1, Nat.mod_lt _ (by decide),
      ?_⟩
    simp only [beginObservedTurn, boundText, length_take]
    exact Nat.min_le_left _ _
  | publish event =>
    cases hstep
    cases hevent : observationEvent event with
    | none =>
      simp only [publishObservedLoopEvent, hevent]
      exact h
    | some original =>
      obtain ⟨dropped, remaining, -, hstate, -⟩ :=
        publishObserved_spec original hbounded.bytes_eq
      simp only [publishObservedLoopEvent, hevent, hstate]
      exact sendable_update h rfl rfl rfl rfl
  | setWaiting waiting | complete generationStart durableTurnCount interrupted =>
    cases hstep
    exact sendable_update h rfl rfl rfl rfl
  | poll =>
    simp only [ObservedWorld.step] at hstep
    obtain ⟨-, hstep⟩ := ite_none_left_eq_some.mp hstep
    obtain ⟨-, hstep⟩ := ite_none_left_eq_some.mp hstep
    cases hstep
    exact h
  | reconnect =>
    cases hstep
    exact h

/-- What holds of every run, while the sequence numbers last. -/
structure Observed (world : ObservedWorld) : Prop where
  bounded : Bounded world.publication
  sendable : Sendable world.publication.frame
  follows : world.updates < 2 ^ 64 → Follows world

theorem observed_reachable {ownerID : Text} (howner : ownerID.length = 64)
    {world : ObservedWorld}
    (hrun : Reachable ObservedWorld.step (initialWorld ownerID) world) :
    Observed world := by
  refine hrun.invariant ?_ fun world action world' h _ hstep => ?_
  · refine ⟨bounded_initial ownerID, ⟨le_of_eq howner, ?_, ?_, ?_⟩, fun _ =>
      follows_initial ownerID⟩ <;> simp [initialWorld, initialPublication]
  · refine ⟨bounded_step h.bounded hstep, sendable_step h.sendable h.bounded hstep, fun hfew => ?_⟩
    exact follows_step (h.follows (lt_of_le_of_lt (updates_le_of_step hstep) hfew)) h.bounded hstep
      hfew

/-- **An observer converges on the journal, and no frame is rejected**: while the sequence numbers
last, an observer holds, after each frame, a suffix of the events of the turn up to it that ends with
the events retained, and all of them if the frame is not marked truncated; the byte count is that of
the events retained, within the limit; and every frame is received as it was sent, if the identifier
of the session is not too long. -/
theorem observers_converge {ownerID sessionID : Text}
    (howner : isFreshIdentifier [] ownerID = true) (hsession : utf8Length sessionID ≤ 2 ^ 20)
    {world : ObservedWorld}
    (hrun : Reachable ObservedWorld.step (initialWorld ownerID) world)
    (hfew : world.updates < 2 ^ 64) :
    (∀ delivered, world.observer.last = some delivered →
      Converged world.log delivered world.observer.held) ∧
    (world.publication.retainedBytes =
        (world.publication.retained.map fun event => eventBytes event.event).sum ∧
      world.publication.retainedBytes ≤ retainedByteLimit) ∧
    ∀ previous chunks rest, [] ∉ chunks →
      chunks.flatten =
        sendFrame (envelopeBytes sessionID (frameSince previous world.publication)) ++ rest →
      ∃ remaining, receiveFrame chunks =
          .ok (envelopeBytes sessionID (frameSince previous world.publication), remaining) ∧
        remaining.flatten = rest := by
  have hobserved := observed_reachable (isFreshIdentifier_iff howner).1 hrun
  refine ⟨(hobserved.follows hfew).converged, ⟨?_, hobserved.bounded.bytes_le⟩, ?_⟩
  · rw [hobserved.bounded.bytes_eq, totalSize]
    exact congrArg List.sum (map_congr_left hobserved.bounded.sized)
  · intro previous chunks rest hchunks hstream
    obtain ⟨remaining, hreceived, -, hrest⟩ := receiveFrame_sendFrame
      (length_envelopeBytes_pos sessionID _)
      (length_envelopeBytes_le hsession (sendable_frameSince hobserved.sendable previous)
        (events_frameSince_le hobserved.bounded previous)) hchunks hstream
    exact ⟨remaining, hreceived, hrest⟩

/-! ### Where observation ends -/

def exampleIdentifier (c : Char) : Text := List.replicate 64 c

/-- Two events, of which the first is delivered on its own. -/
def exampleRun : List Action :=
  [.beginTurn (exampleIdentifier 'a') 0 0 ['h', 'i'], .publish (.textDelta ['x']), .poll,
    .setWaiting true, .publish (.textDelta ['y']), .poll]

theorem observers_converge_in_exampleRun :
    ∃ world, Reachable ObservedWorld.step (initialWorld (exampleIdentifier '0')) world ∧
      world.observer.held.map (·.text) = [['x'], ['y']] ∧
      ∀ delivered, world.observer.last = some delivered →
        Converged world.log delivered world.observer.held := by
  have hrun : ((Machine.run ObservedWorld.step (initialWorld (exampleIdentifier '0'))
      exampleRun).any fun world => decide (world.updates = 4) &&
        decide (world.observer.held.map (·.text) = [['x'], ['y']])) = true := by
    decide +kernel
  obtain ⟨world, hworld, htest⟩ := (Option.any_eq_true _ _).mp hrun
  rw [Bool.and_eq_true, decide_eq_true_eq, decide_eq_true_eq] at htest
  have hreachable := reachable_of_run hworld
  have hfew : world.updates < 2 ^ 64 := by
    rw [htest.1]
    decide
  exact ⟨world, hreachable, htest.2,
    (@observers_converge (exampleIdentifier '0') ['s'] (by decide) (by decide) world hreachable
      hfew).1⟩

/-- An observer who has been sent every event of the turn, one by one. -/
structure KeepsUp (world : ObservedWorld) (count : ℕ) : Prop where
  follows : Follows world
  bounded : Bounded world.publication
  turn : world.publication.frame.turnID ≠ []
  cursor : world.observer.previous = some (world.publication.frame.turnID, world.updates)
  last : ∃ delivered, world.observer.last = some delivered ∧
    delivered.retained = world.publication.retained.map (·.event)
  length_held : world.observer.held.length = count

/-- One more event is published and sent. -/
theorem KeepsUp.next {world : ObservedWorld} {count : ℕ} (h : KeepsUp world count)
    (hfew : world.updates + 1 < 2 ^ 64) (event : LoopEvent) {original : SessionObservationEvent}
    (hevent : observationEvent event = some original) :
    ∃ world', Reachable ObservedWorld.step world world' ∧ KeepsUp world' (count + 1) ∧
      world'.updates = world.updates + 1 := by
  obtain ⟨dropped, remaining, hsplit, hstate, -, -, hnonempty⟩ :=
    publishObserved_spec original h.bounded.bytes_eq
  have hsequence : nextSequence world.publication.frame.sequence = world.updates + 1 := by
    rw [h.follows.sequence_eq]
    exact Nat.mod_eq_of_lt hfew
  have hpublish : world.step (.publish event) =
      some (publishObservedLoopEvent event world) := rfl
  have hpublished : publishObservedLoopEvent event world =
      { world with
        publication := publishObserved original world.publication
        log := world.log ++
          [(world.publication.frame.turnID, retainedEvent original world.publication)]
        updates := world.updates + 1 } := by
    simp only [publishObservedLoopEvent, hevent]
    rfl
  have hfollows : Follows (publishObservedLoopEvent event world) :=
    follows_step h.follows h.bounded hpublish (by rw [hpublished]; exact hfew)
  have hbounded := bounded_step h.bounded hpublish
  -- the window holds the new event at its end, and nothing else the observer lacks
  obtain ⟨older, hremaining⟩ : ∃ older,
      remaining = older ++ [retainedEvent original world.publication] := by
    rcases eq_nil_or_concat remaining with hnil | ⟨older, last, hconcat⟩
    · exact absurd hnil hnonempty
    · rw [concat_eq_append] at hconcat
      refine ⟨older, ?_⟩
      rw [hconcat, ← append_assoc] at hsplit
      rw [hconcat, (append_inj' hsplit rfl).2]
  have holder : ∀ retained ∈ older, retained.eventSequence ≤ world.updates := by
    intro retained hretained
    rw [hremaining, ← append_assoc] at hsplit
    have hmem : retained ∈ world.publication.retained := by
      rw [(append_inj' hsplit rfl).1]
      exact mem_append_right _ hretained
    obtain ⟨before, kept, hlog, -⟩ := h.follows.window
    refine mem_turnLog_le world.publication.frame.turnID h.follows.log_le ?_
    rw [hlog]
    exact mem_append_right _ hmem
  have hnew : (retainedEvent original world.publication).eventSequence = world.updates + 1 :=
    hsequence
  have hreset : (frameSince (some (world.publication.frame.turnID, world.updates))
      (publishObserved original world.publication)).reset = false := by
    rw [hstate]
    simp only [frameSince, bne_self_eq_false, Bool.false_or]
    have hnext : nextSequence world.updates = world.updates + 1 := Nat.mod_eq_of_lt hfew
    cases older with
    | nil =>
      simp only [hremaining, nil_append, hnext, hnew, lt_irrefl, decide_false]
    | cons first rest =>
      have hfirst := holder first mem_cons_self
      simp only [hremaining, cons_append, hnext, decide_eq_false_iff_not]
      omega
  have hevents : (frameSince (some (world.publication.frame.turnID, world.updates))
      (publishObserved original world.publication)).events = [boundEvent original] := by
    have hnone : older.filter (fun event => decide (world.updates < event.eventSequence)) = [] :=
      filter_eq_nil_iff.mpr fun event hevent => by
        have hle := holder event hevent
        simpa using hle
    rw [events_frameSince_of_not_reset hreset, hstate]
    simp only [hremaining, filter_append, hnone, nil_append, filter_cons, hnew,
      Nat.lt_succ_self, decide_true, if_true, filter_nil, map_cons, map_nil]
    rfl
  have hpoll : (publishObservedLoopEvent event world).step .poll =
      some { publishObservedLoopEvent event world with
        observer := world.observer.receive
          (frameSince (some (world.publication.frame.turnID, world.updates))
            (publishObserved original world.publication))
          ((publishObserved original world.publication).retained.map (·.event)) } := by
    have hturn : (publishObserved original world.publication).frame.turnID.isEmpty = false := by
      rw [hstate]
      exact Bool.eq_false_of_not_eq_true fun htrue => h.turn (List.isEmpty_iff.mp htrue)
    have hchanged : ¬ (world.updates = world.updates + 1) := by omega
    have hframe : (publishObserved original world.publication).frame.sequence =
        world.updates + 1 := by
      rw [hstate]
      exact hsequence
    rw [hpublished]
    simp only [ObservedWorld.step, hturn, h.cursor, any_some, hframe, beq_iff_eq, hchanged,
      Bool.false_eq_true, if_false]
  refine ⟨_, .tail (.tail .refl trivial hpublish) trivial hpoll, ?_, by rw [hpublished]⟩
  refine
    { follows := follows_step hfollows hbounded hpoll (by rw [hpublished]; exact hfew)
      bounded := bounded_step hbounded hpoll
      turn := by simp only [hpublished, hstate]; exact h.turn
      cursor := ?_
      last := ⟨_, rfl, by rw [hpublished]⟩
      length_held := ?_ }
  · simp only [hpublished, Observer.receive, frameSince, hstate, hsequence]
  · simp only [Observer.receive, hreset, hevents, Bool.false_eq_true, if_false,
      length_append, length_singleton, h.length_held]

/-- An observer who connects at the beginning of the first turn. -/
theorem keepsUp_begin {ownerID : Text} (turnID : Text) (howner : ownerID.length = 64)
    (hfresh : isFreshIdentifier [] turnID = true) :
    ∃ world, Reachable ObservedWorld.step (initialWorld ownerID) world ∧
      KeepsUp world 0 ∧ world.updates = 1 := by
  have hbegin : (initialWorld ownerID).step (.beginTurn turnID 0 0 []) = some
      { initialWorld ownerID with
        publication := beginObservedTurn turnID 0 0 [] (initialPublication ownerID)
        drawn := [turnID]
        updates := 1 } := by
    have hdrawn : isFreshIdentifier (initialWorld ownerID).drawn turnID = true := hfresh
    simp only [ObservedWorld.step, hdrawn, if_true]
    rfl
  have hne : turnID ≠ [] := (isFreshIdentifier_iff hfresh).2.1
  have hturn : turnID.isEmpty = false :=
    Bool.eq_false_of_not_eq_true fun htrue => hne (List.isEmpty_iff.mp htrue)
  have hpoll : ObservedWorld.step
      { initialWorld ownerID with
        publication := beginObservedTurn turnID 0 0 [] (initialPublication ownerID)
        drawn := [turnID]
        updates := 1 } .poll = some
      { initialWorld ownerID with
        publication := beginObservedTurn turnID 0 0 [] (initialPublication ownerID)
        observer := (initialWorld ownerID).observer.receive
          (frameSince none (beginObservedTurn turnID 0 0 [] (initialPublication ownerID))) []
        drawn := [turnID]
        updates := 1 } := by
    simp only [ObservedWorld.step, beginObservedTurn, hturn, initialWorld, any_none,
      Bool.false_eq_true, if_false, map_nil]
  have hreachable := (ReachableBy.tail (.tail .refl trivial hbegin) trivial hpoll :
    Reachable ObservedWorld.step (initialWorld ownerID) _)
  have hobserved := observed_reachable howner hreachable
  exact ⟨_, hreachable,
    { follows := hobserved.follows (by simp)
      bounded := hobserved.bounded
      turn := hne
      cursor := rfl
      last := ⟨_, rfl, rfl⟩
      length_held := rfl }, rfl⟩

theorem keepsUp_many (ownerID : Text) (howner : ownerID.length = 64) (count : ℕ)
    (hfew : count + 1 < 2 ^ 64) :
    ∃ world, Reachable ObservedWorld.step (initialWorld ownerID) world ∧
      KeepsUp world count ∧ world.updates = count + 1 := by
  induction count with
  | zero => exact keepsUp_begin (exampleIdentifier 'a') howner (by decide)
  | succ count ih =>
    obtain ⟨world, hreachable, hkeeps, hupdates⟩ := ih (by omega)
    obtain ⟨world', hnext, hkeeps', hupdates'⟩ :=
      hkeeps.next (by omega) (.textDelta ['x']) rfl
    exact ⟨world', hreachable.trans hnext, hkeeps', by rw [hupdates', hupdates]⟩

/-- Waiting and running again, over and over, only moves the sequence number. -/
theorem wait_many (count : ℕ) (world : ObservedWorld)
    (hsequence : world.publication.frame.sequence < 2 ^ 64) :
    ∃ world', Reachable ObservedWorld.step world world' ∧
      world'.publication.frame.sequence =
        (world.publication.frame.sequence + count) % 2 ^ 64 ∧
      world'.publication.frame.turnID = world.publication.frame.turnID ∧
      world'.publication.frame.truncated = world.publication.frame.truncated ∧
      world'.publication.retained = world.publication.retained ∧
      world'.publication.retainedBytes = world.publication.retainedBytes ∧
      world'.observer = world.observer ∧ world'.log = world.log := by
  induction count with
  | zero =>
    refine ⟨world, .refl, ?_, rfl, rfl, rfl, rfl, rfl, rfl⟩
    exact (Nat.mod_eq_of_lt hsequence).symm
  | succ count ih =>
    obtain ⟨world', hreachable, hnumber, hturn, htruncated, hretained, hbytes, hobserver, hlog⟩ := ih
    refine ⟨_, .tail hreachable trivial (rfl : world'.step (.setWaiting true) = some _), ?_, hturn,
      htruncated, hretained, hbytes, hobserver, hlog⟩
    simp only [setObservedWaiting, nextSequence, hnumber]
    omega

theorem utf8Length_cons_pos (c : Char) (rest : Text) : 0 < utf8Length (c :: rest) := by
  have hpos := Char.utf8Size_pos c
  rw [utf8Length_cons]
  omega

theorem length_le_utf8Length_renderString (s : Text) : s.length ≤ utf8Length (renderString s) := by
  have hescaped : s.length ≤ utf8Length (s.flatMap escapeChar) := by
    induction s with
    | nil => exact Nat.le_refl 0
    | cons c rest ih =>
      have hc : 0 < utf8Length (escapeChar c) := by
        unfold escapeChar
        split_ifs <;> exact utf8Length_cons_pos _ _
      rw [flatMap_cons, utf8Length_append, length_cons]
      omega
  simp only [renderString, utf8Length_cons, utf8Length_append]
  omega

/-- An event, and then a poll, of a turn whose sequence number has come around to its beginning. -/
theorem hidden_by_wrap :
    ∃ world, Reachable ObservedWorld.step (initialWorld (exampleIdentifier '0')) world ∧
      world.observer.held = [] ∧
      ∃ delivered, world.observer.last = some delivered ∧ delivered.frame.truncated = false ∧
        (delivered.retained).length = 1 := by
  have hrun : ((Machine.run ObservedWorld.step (initialWorld (exampleIdentifier '0'))
      [.beginTurn (exampleIdentifier 'a') 0 0 [], .setWaiting true, .poll]).any fun world =>
        decide (world.publication.frame.sequence = 2) &&
        decide (world.publication.frame.turnID = exampleIdentifier 'a') &&
        decide (world.publication.frame.truncated = false) &&
        decide (world.publication.retained = []) && decide (world.publication.retainedBytes = 0) &&
        decide (world.observer.previous = some (exampleIdentifier 'a', 2)) &&
        decide (world.observer.held = [])) = true := by
    decide +kernel
  obtain ⟨polled, hpolled, htest⟩ := (Option.any_eq_true _ _).mp hrun
  simp only [Bool.and_eq_true, decide_eq_true_eq] at htest
  obtain ⟨⟨⟨⟨⟨⟨hsequence, hturn⟩, htruncated⟩, hretained⟩, hbytes⟩, hcursor⟩, hheld⟩ := htest
  obtain ⟨around, haround, hsequence', hturn', htruncated', hretained', hbytes', hobserver, -⟩ :=
    wait_many (2 ^ 64 - 2) polled (by rw [hsequence]; decide)
  obtain ⟨original, horiginal, hbound⟩ : ∃ original,
      observationEvent (.textDelta ['x']) = some original ∧ boundEvent original = original :=
    ⟨_, rfl, by decide⟩
  obtain ⟨dropped, remaining, hsplit, hstate, -, -, hnonempty⟩ := publishObserved_spec original
    (show around.publication.retainedBytes = totalSize around.publication.retained by
      rw [hbytes', hbytes, hretained', hretained]
      rfl)
  rw [hretained', hretained, nil_append] at hsplit
  have hdropped : dropped = [] := by
    cases dropped with
    | nil => rfl
    | cons first rest =>
      have hnil : rest ++ remaining = [] := (List.cons.inj hsplit).2.symm
      exact absurd (append_eq_nil_iff.mp hnil).2 hnonempty
  rw [hdropped, nil_append] at hsplit
  have hnumber : nextSequence around.publication.frame.sequence = 1 := by
    rw [hsequence', hsequence]
    decide
  have hstate' : publishObserved original around.publication =
      { frame := { around.publication.frame with sequence := 1, truncated := false }
        retained := [retainedEvent original around.publication]
        retainedBytes := totalSize [retainedEvent original around.publication] } := by
    rw [hstate, hdropped, ← hsplit, hnumber, htruncated', htruncated, hbound]
    simp
  have hpublish : around.step (.publish (.textDelta ['x'])) =
      some (publishObservedLoopEvent (.textDelta ['x']) around) := rfl
  have hpublication : (publishObservedLoopEvent (.textDelta ['x']) around).publication =
      publishObserved original around.publication := by
    simp only [publishObservedLoopEvent, horiginal]
  have hsame : (publishObservedLoopEvent (.textDelta ['x']) around).observer =
      polled.observer := by
    simp only [publishObservedLoopEvent, horiginal, hobserver]
  have hpoll : (publishObservedLoopEvent (.textDelta ['x']) around).step .poll =
      some { publishObservedLoopEvent (.textDelta ['x']) around with
        observer := polled.observer.receive
          (frameSince polled.observer.previous (publishObserved original around.publication))
          ((publishObserved original around.publication).retained.map (·.event)) } := by
    have hne : (exampleIdentifier 'a').isEmpty = false := by decide
    simp only [ObservedWorld.step, hpublication, hsame, hstate', hturn', hturn, hne, hcursor]
    rfl
  refine ⟨_, .tail (.tail ((reachable_of_run hpolled).trans haround) trivial hpublish)
    trivial hpoll, ?_, _, rfl, ?_, ?_⟩
  · have hnew : (retainedEvent original around.publication).eventSequence = 1 := hnumber
    simp only [Observer.receive, hcursor, hheld, hstate', frameSince, hturn', hturn, hnew,
      bne_self_eq_false, Bool.false_or, nextSequence, elim_some, filter_cons]
    rfl
  · simp only [hstate', frameSince]
  · simp only [hstate', map_cons, map_nil, length_singleton]

theorem observers_hold_more_than_retained :
    -- an observer keeps the events that the journal has dropped
    (∃ world, Reachable ObservedWorld.step (initialWorld (exampleIdentifier '0')) world ∧
      ∃ delivered, world.observer.last = some delivered ∧
        world.observer.held ≠ delivered.retained) ∧
    -- an event behind a cursor from before the sequence number came around is not sent
    (∃ world, Reachable ObservedWorld.step (initialWorld (exampleIdentifier '0')) world ∧
      world.observer.held = [] ∧
      ∃ delivered, world.observer.last = some delivered ∧ delivered.frame.truncated = false ∧
        (delivered.retained).length = 1) ∧
    -- the bytes of the session identifier alone are more than a frame may have
    ∃ sessionID world,
      Reachable ObservedWorld.step (initialWorld (exampleIdentifier '0')) world ∧
      maximumFrameBytes < (envelopeBytes sessionID (frameSince none world.publication)).length := by
  refine ⟨?_, hidden_by_wrap, List.replicate (2 ^ 25 + 1) 'x', _, .refl, ?_⟩
  · obtain ⟨world, hreachable, hkeeps, -⟩ :=
      keepsUp_many (exampleIdentifier '0') (by decide) 8193 (by decide)
    obtain ⟨delivered, hlast, hretained⟩ := hkeeps.last
    refine ⟨world, hreachable, delivered, hlast, fun hsame => ?_⟩
    have hheld := hkeeps.length_held
    have hlimit : world.publication.retained.length ≤ 8192 := hkeeps.bounded.length_le
    rw [hsame, hretained, length_map] at hheld
    omega
  · have hlength := length_le_utf8Length_renderString (List.replicate (2 ^ 25 + 1) 'x')
    rw [length_replicate] at hlength
    have hlimit : maximumFrameBytes = 2 ^ 25 := by decide
    rw [hlimit, envelopeBytes, length_encodeUtf8, envelopeJson, render_object]
    simp only [renderMembers, utf8Length_append, utf8Length_cons, render_string]
    omega

end Observation
end HaskellAgent
