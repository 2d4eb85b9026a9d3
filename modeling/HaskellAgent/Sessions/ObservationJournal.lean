import HaskellAgent.Lib.Runs
import HaskellAgent.Sessions.Observation
import Mathlib.Data.List.DropRight

/-!
# What an observer holds

The journal of a publication is a window at the end of the events of the current turn, within its
limits.  An observer holds the events of a turn from some point on; where its cursor has fallen
behind the window it is reset, and otherwise the window holds all that it lacks.
-/

open List Option

namespace HaskellAgent
namespace Observation

/-- The events of a turn up to a sequence number. -/
def turnEvents (log : List (Text × RetainedEvent)) (turnID : Text) (sequence : ℕ) :
    List SessionObservationEvent :=
  (log.filter fun entry => entry.1 == turnID && decide (entry.2.eventSequence ≤ sequence)).map
    (·.2.event)

/-- The events of a turn, with their sequence numbers. -/
def turnLog (log : List (Text × RetainedEvent)) (turnID : Text) : List RetainedEvent :=
  (log.filter fun entry => entry.1 == turnID).map (·.2)

/-! ### Trimming -/

def totalSize (events : List RetainedEvent) : ℤ := (events.map (·.eventSize)).sum

@[simp] theorem totalSize_nil : totalSize [] = 0 := rfl

@[simp] theorem totalSize_cons (event : RetainedEvent) (events : List RetainedEvent) :
    totalSize (event :: events) = event.eventSize + totalSize events := by
  simp [totalSize]

theorem totalSize_concat (event : RetainedEvent) (events : List RetainedEvent) :
    totalSize (events ++ [event]) = totalSize events + event.eventSize := by
  simp [totalSize]

theorem utf8Length_boundText_le (text : Text) : utf8Length (boundText text) ≤ 4 * 65536 := by
  have hlength : (boundText text).length ≤ 65536 := by
    rw [boundText, fieldCharacterLimit, length_take]
    exact Nat.min_le_left _ _
  have hbytes := utf8Length_le_four_mul_length (boundText text)
  omega

/-- One event is far within the limit. -/
theorem eventBytes_boundEvent_le (event : SessionObservationEvent) :
    eventBytes (boundEvent event) ≤ retainedByteLimit := by
  have h₁ := utf8Length_boundText_le event.identifier
  have h₂ := utf8Length_boundText_le event.name
  have h₃ := utf8Length_boundText_le event.text
  have h₄ := utf8Length_boundText_le event.arguments
  have h₅ := utf8Length_boundText_le event.summary
  simp only [eventBytes, textBytes, boundEvent, retainedByteLimit, map_cons, map_nil,
    sum_cons, sum_nil]
  omega

/-- **What trimming leaves**: the newest events, as many as the limits admit. -/
theorem trimRetained_spec (events : List RetainedEvent) (current : PublicationState)
    (hbytes : current.retainedBytes = totalSize events) :
    ∃ dropped remaining, events = dropped ++ remaining ∧
      trimRetained current events =
        { frame := { current.frame with
            truncated := current.frame.truncated || !dropped.isEmpty }
          retained := remaining
          retainedBytes := totalSize remaining } ∧
      totalSize remaining ≤ retainedByteLimit ∧ remaining.length ≤ retainedEventLimit ∧
      ∀ pre last, events = pre ++ [last] → last.eventSize ≤ retainedByteLimit →
        remaining ≠ [] := by
  induction events generalizing current with
  | nil =>
    refine ⟨[], [], rfl, ?_, by decide, by decide, ?_⟩
    · rw [trimRetained, hbytes]
      simp
    · intro pre last hnil
      exact absurd hnil.symm (append_ne_nil_of_right_ne_nil pre (cons_ne_nil last []))
  | cons oldest remaining ih =>
    rw [trimRetained]
    split
    · next hwithin =>
      refine ⟨[], oldest :: remaining, rfl, ?_, hbytes ▸ hwithin.1, hwithin.2, ?_⟩
      · rw [← hbytes]
        simp
      · intro _ _ _ _
        exact cons_ne_nil oldest remaining
    · next hover =>
      obtain ⟨dropped, kept, hsplit, hstate, hlimit, hcount, hnonempty⟩ := ih
        { current with
          frame := { current.frame with truncated := true }
          retainedBytes := current.retainedBytes - oldest.eventSize }
        (by simp [hbytes])
      refine ⟨oldest :: dropped, kept, by rw [hsplit, cons_append], ?_, hlimit, hcount, ?_⟩
      · rw [hstate]
        simp
      · intro pre last hlast hsize
        cases pre with
        | nil =>
          -- a single event is within the limits, so it was not dropped
          cases hlast
          refine absurd ⟨?_, ?_⟩ hover
          · rw [hbytes, totalSize_cons, totalSize_nil, add_zero]
            exact hsize
          · simp [retainedEventLimit]
        | cons first pre =>
          obtain ⟨-, hrest⟩ := List.cons.inj hlast
          exact hnonempty pre last hrest hsize

/-- The journal is within its limits, and its byte count is that of its events. -/
structure Bounded (publication : PublicationState) : Prop where
  bytes_eq : publication.retainedBytes = totalSize publication.retained
  bytes_le : publication.retainedBytes ≤ retainedByteLimit
  length_le : publication.retained.length ≤ retainedEventLimit
  sized : ∀ event ∈ publication.retained, event.eventSize = eventBytes event.event

theorem bounded_of_empty {publication : PublicationState} (hretained : publication.retained = [])
    (hbytes : publication.retainedBytes = 0) : Bounded publication where
  bytes_eq := by rw [hbytes, hretained, totalSize_nil]
  bytes_le := by simp [hbytes, retainedByteLimit]
  length_le := by simp [hretained]
  sized := by simp [hretained]

/-- The event as the journal retains it. -/
def retainedEvent (original : SessionObservationEvent) (current : PublicationState) :
    RetainedEvent where
  eventSequence := nextSequence current.frame.sequence
  eventSize := eventBytes (boundEvent original)
  event := boundEvent original

/-- **What publishing an event does**: it is appended, and the oldest events are dropped. -/
theorem publishObserved_spec (original : SessionObservationEvent) {current : PublicationState}
    (hbytes : current.retainedBytes = totalSize current.retained) :
    ∃ dropped remaining,
      current.retained ++ [retainedEvent original current] = dropped ++ remaining ∧
      publishObserved original current =
        { frame := { current.frame with
            sequence := nextSequence current.frame.sequence
            truncated :=
              (current.frame.truncated || original != boundEvent original) || !dropped.isEmpty }
          retained := remaining
          retainedBytes := totalSize remaining } ∧
      totalSize remaining ≤ retainedByteLimit ∧ remaining.length ≤ retainedEventLimit ∧
      remaining ≠ [] := by
  have hsum : (appendEvent original current).retainedBytes =
      totalSize (current.retained ++ [retainedEvent original current]) := by
    rw [totalSize_concat, ← hbytes]
    rfl
  obtain ⟨dropped, remaining, hsplit, hstate, hlimit, hcount, hnonempty⟩ :=
    trimRetained_spec (current.retained ++ [retainedEvent original current])
      (appendEvent original current) hsum
  exact ⟨dropped, remaining, hsplit, hstate, hlimit, hcount,
    hnonempty _ _ rfl (eventBytes_boundEvent_le original)⟩

theorem bounded_publishObserved {current : PublicationState} (h : Bounded current)
    (original : SessionObservationEvent) : Bounded (publishObserved original current) := by
  obtain ⟨dropped, remaining, hsplit, hstate, hlimit, hcount, -⟩ :=
    publishObserved_spec original h.bytes_eq
  rw [hstate]
  refine ⟨rfl, hlimit, hcount, fun event hevent => ?_⟩
  have hmem : event ∈ current.retained ++ [retainedEvent original current] :=
    hsplit ▸ mem_append_right dropped hevent
  rcases mem_append.mp hmem with hold | hnew
  · exact h.sized event hold
  · rw [mem_singleton.mp hnew]
    rfl

/-- **The byte count is that of the events retained, within the limits**, in every run. -/
theorem bounded_step {world world' : ObservedWorld} {action : Action}
    (h : Bounded world.publication) (hstep : world.step action = some world') :
    Bounded world'.publication := by
  cases action with
  | beginTurn turnID generationStart durableTurnCount userText =>
    obtain ⟨-, hworld⟩ := ite_none_right_eq_some.mp hstep
    cases hworld
    exact bounded_of_empty rfl rfl
  | publish event =>
    cases hstep
    unfold publishObservedLoopEvent
    split
    · exact h
    · next original _ => exact bounded_publishObserved h original
  | setWaiting waiting | complete generationStart durableTurnCount interrupted =>
    cases hstep
    exact ⟨h.bytes_eq, h.bytes_le, h.length_le, h.sized⟩
  | poll =>
    simp only [ObservedWorld.step] at hstep
    obtain ⟨-, hstep⟩ := ite_none_left_eq_some.mp hstep
    obtain ⟨-, hstep⟩ := ite_none_left_eq_some.mp hstep
    cases hstep
    exact h
  | reconnect =>
    cases hstep
    exact h

theorem bounded_initial (ownerID : Text) : Bounded (initialPublication ownerID) :=
  bounded_of_empty rfl rfl

/-! ### The events of a turn -/

section Log

variable {log : List (Text × RetainedEvent)} {entry : Text × RetainedEvent} {turnID : Text}
  {sequence : ℕ}

theorem turnEvents_concat_of_lt (turnID : Text) (h : sequence < entry.2.eventSequence) :
    turnEvents (log ++ [entry]) turnID sequence = turnEvents log turnID sequence := by
  have hnot : ¬ entry.2.eventSequence ≤ sequence := Nat.not_le.mpr h
  simp [turnEvents, hnot]

theorem turnEvents_eq_turnLog (h : ∀ entry ∈ log, entry.2.eventSequence ≤ sequence) :
    turnEvents log turnID sequence = (turnLog log turnID).map (·.event) := by
  have hfilter : (log.filter fun entry => entry.1 == turnID &&
      decide (entry.2.eventSequence ≤ sequence)) = log.filter fun entry => entry.1 == turnID :=
    filter_congr fun entry hentry => by simp [h entry hentry]
  rw [turnEvents, turnLog, hfilter, List.map_map]
  rfl

theorem turnLog_concat_self (event : RetainedEvent) :
    turnLog (log ++ [(turnID, event)]) turnID = turnLog log turnID ++ [event] := by
  simp [turnLog]

theorem turnLog_eq_nil (h : ∀ entry ∈ log, entry.1 ≠ turnID) : turnLog log turnID = [] := by
  rw [turnLog, map_eq_nil_iff, filter_eq_nil_iff]
  intro entry hentry
  simpa using h entry hentry

theorem mem_turnLog_le (turnID : Text) {event : RetainedEvent} {n : ℕ}
    (h : ∀ entry ∈ log, entry.2.eventSequence ≤ n) (hevent : event ∈ turnLog log turnID) :
    event.eventSequence ≤ n := by
  obtain ⟨entry, hentry, rfl⟩ := List.mem_map.mp hevent
  exact h entry (mem_filter.mp hentry).1

theorem ascending_turnLog (turnID : Text) (h : (log.map (·.2)).Ascending (·.eventSequence)) :
    (turnLog log turnID).Ascending (·.eventSequence) :=
  h.sublist (filter_sublist.map _)

end Log

/-! ### The observer -/

/-- What an observer holds after a frame: a suffix of the events of the turn up to the frame's
sequence, with all that the journal retained, and all of them unless the frame is marked. -/
structure Converged (log : List (Text × RetainedEvent)) (delivered : Delivered)
    (held : List SessionObservationEvent) : Prop where
  held_suffix : held <:+ turnEvents log delivered.frame.turnID delivered.frame.sequence
  retained_suffix : delivered.retained <:+ held
  complete : delivered.frame.truncated = false →
    held = turnEvents log delivered.frame.turnID delivered.frame.sequence

theorem Converged.concat {log : List (Text × RetainedEvent)} {delivered : Delivered}
    {held : List SessionObservationEvent} (h : Converged log delivered held)
    {entry : Text × RetainedEvent} (hlt : delivered.frame.sequence < entry.2.eventSequence) :
    Converged (log ++ [entry]) delivered held := by
  have hsame : turnEvents (log ++ [entry]) delivered.frame.turnID delivered.frame.sequence =
      turnEvents log delivered.frame.turnID delivered.frame.sequence :=
    turnEvents_concat_of_lt _ hlt
  refine ⟨?_, h.retained_suffix, fun hcomplete => ?_⟩
  · rw [hsame]
    exact h.held_suffix
  · rw [hsame]
    exact h.complete hcomplete

/-- The journal is a window at the end of the events of the turn, and an observer of the turn holds
the events from some point before the window on, up to its last frame. -/
def Window (world : ObservedWorld) (before kept : List RetainedEvent) : Prop :=
  turnLog world.log world.publication.frame.turnID =
      before ++ kept ++ world.publication.retained ∧
    (world.publication.frame.truncated = false → before ++ kept = []) ∧
    (world.publication.retained = [] → before ++ kept = []) ∧
    ∀ delivered, world.observer.last = some delivered →
      delivered.frame.turnID = world.publication.frame.turnID →
      world.observer.held = ((kept ++ world.publication.retained).filter fun event =>
        decide (event.eventSequence ≤ delivered.frame.sequence)).map (·.event)

/-- The invariant of the publication with its observer, while the sequence numbers last. -/
structure Follows (world : ObservedWorld) : Prop where
  sequence_eq : world.publication.frame.sequence = world.updates
  log_le : ∀ entry ∈ world.log, entry.2.eventSequence ≤ world.updates
  log_ascending : (world.log.map (·.2)).Ascending (·.eventSequence)
  log_drawn : ∀ entry ∈ world.log, entry.1 = [] ∨ entry.1 ∈ world.drawn
  turn_drawn : world.publication.frame.turnID = [] ∨
    world.publication.frame.turnID ∈ world.drawn
  cursor : ∀ previous, world.observer.previous = some previous →
    ∃ delivered, world.observer.last = some delivered ∧
      previous = (delivered.frame.turnID, delivered.frame.sequence)
  last_le : ∀ delivered, world.observer.last = some delivered →
    delivered.frame.sequence ≤ world.updates ∧
      (delivered.frame.turnID = [] ∨ delivered.frame.turnID ∈ world.drawn)
  converged : ∀ delivered, world.observer.last = some delivered →
    Converged world.log delivered world.observer.held
  window : ∃ before kept, Window world before kept

theorem follows_initial (ownerID : Text) : Follows (initialWorld ownerID) where
  sequence_eq := rfl
  log_le _ hentry := by cases hentry
  log_ascending := List.Pairwise.nil
  log_drawn _ hentry := by cases hentry
  turn_drawn := .inl rfl
  cursor _ hprevious := by cases hprevious
  last_le _ hlast := by cases hlast
  converged _ hlast := by cases hlast
  window := ⟨[], [], rfl, fun _ => rfl, fun _ => rfl, fun _ hlast => by cases hlast⟩

theorem isFreshIdentifier_iff {drawn : List Text} {identifier : Text}
    (h : isFreshIdentifier drawn identifier = true) :
    identifier.length = 64 ∧ identifier ≠ [] ∧ identifier ∉ drawn := by
  unfold isFreshIdentifier at h
  simp only [Bool.and_eq_true, beq_iff_eq, Bool.not_eq_true', contains_eq_mem,
    decide_eq_false_iff_not] at h
  refine ⟨h.1.1, ?_, h.2⟩
  rintro rfl
  exact absurd h.1.1 (by decide)

/-! ### The steps -/

section Steps

variable {world : ObservedWorld}

/-- An update of the frame that is about no event. -/
theorem Follows.update (h : Follows world) (hfew : world.updates + 1 < 2 ^ 64)
    {publication : PublicationState}
    (hsequence : publication.frame.sequence = nextSequence world.publication.frame.sequence)
    (hturn : publication.frame.turnID = world.publication.frame.turnID)
    (htruncated : publication.frame.truncated = world.publication.frame.truncated)
    (hretained : publication.retained = world.publication.retained) :
    Follows { world with publication, updates := world.updates + 1 } where
  sequence_eq := by
    simp only [hsequence, h.sequence_eq, nextSequence]
    exact Nat.mod_eq_of_lt hfew
  log_le entry hentry := Nat.le_succ_of_le (h.log_le entry hentry)
  log_ascending := h.log_ascending
  log_drawn := h.log_drawn
  turn_drawn := by
    simp only [hturn]
    exact h.turn_drawn
  cursor := h.cursor
  last_le delivered hlast :=
    ⟨Nat.le_succ_of_le (h.last_le delivered hlast).1, (h.last_le delivered hlast).2⟩
  converged := h.converged
  window := by
    obtain ⟨before, kept, hwindow⟩ := h.window
    refine ⟨before, kept, ?_⟩
    simp only [Window, hturn, htruncated, hretained]
    exact hwindow

/-- A new turn: its identifier is fresh, so nothing is known of it. -/
theorem Follows.begin (h : Follows world) (hfew : world.updates + 1 < 2 ^ 64) {turnID : Text}
    (hfresh : isFreshIdentifier world.drawn turnID = true) (generationStart : Int64)
    (durableTurnCount : Int64) (userText : Text) :
    Follows { world with
      publication :=
        beginObservedTurn turnID generationStart durableTurnCount userText world.publication
      drawn := turnID :: world.drawn
      updates := world.updates + 1 } where
  sequence_eq := by
    simp only [beginObservedTurn, h.sequence_eq, nextSequence]
    exact Nat.mod_eq_of_lt hfew
  log_le entry hentry := Nat.le_succ_of_le (h.log_le entry hentry)
  log_ascending := h.log_ascending
  log_drawn entry hentry := (h.log_drawn entry hentry).imp id (mem_cons_of_mem _)
  turn_drawn := .inr mem_cons_self
  cursor := h.cursor
  last_le delivered hlast :=
    ⟨Nat.le_succ_of_le (h.last_le delivered hlast).1,
      (h.last_le delivered hlast).2.imp id (mem_cons_of_mem _)⟩
  converged := h.converged
  window := by
    obtain ⟨-, hne, hnew⟩ := isFreshIdentifier_iff hfresh
    have hother : ∀ id : Text, id = [] ∨ id ∈ world.drawn → id ≠ turnID := by
      rintro id (rfl | hid) rfl
      · exact hne rfl
      · exact hnew hid
    have hnone : turnLog world.log turnID = [] :=
      turnLog_eq_nil fun entry hentry => hother _ (h.log_drawn entry hentry)
    refine ⟨[], [], hnone, fun _ => rfl, fun _ => rfl, fun delivered hlast hturn => ?_⟩
    exact absurd hturn (hother _ (h.last_le delivered hlast).2)

theorem Follows.publish (h : Follows world) (hbounded : Bounded world.publication)
    (hfew : world.updates + 1 < 2 ^ 64) (original : SessionObservationEvent) :
    Follows { world with
      publication := publishObserved original world.publication
      log := world.log ++
        [(world.publication.frame.turnID, retainedEvent original world.publication)]
      updates := world.updates + 1 } := by
  have hnext : (retainedEvent original world.publication).eventSequence = world.updates + 1 := by
    simp only [retainedEvent, h.sequence_eq, nextSequence]
    exact Nat.mod_eq_of_lt hfew
  obtain ⟨dropped, remaining, hsplit, hstate, -, -, hnonempty⟩ :=
    publishObserved_spec original hbounded.bytes_eq
  have hframe : (publishObserved original world.publication).frame.turnID =
      world.publication.frame.turnID := by rw [hstate]
  refine
    { sequence_eq := ?_, log_le := ?_, log_ascending := ?_, log_drawn := ?_, turn_drawn := ?_,
      cursor := h.cursor, last_le := ?_, converged := ?_, window := ?_ }
  · rw [hstate]
    exact hnext
  · intro entry hentry
    rcases mem_append.mp hentry with hold | hlast
    · exact Nat.le_succ_of_le (h.log_le entry hold)
    · rw [mem_singleton.mp hlast]
      exact le_of_eq hnext
  · rw [map_append]
    refine h.log_ascending.append fun event hevent => ?_
    obtain ⟨entry, hentry, rfl⟩ := List.mem_map.mp hevent
    have hle := h.log_le entry hentry
    simp only [hnext]
    omega
  · intro entry hentry
    rcases mem_append.mp hentry with hold | hlast
    · exact h.log_drawn entry hold
    · rw [mem_singleton.mp hlast]
      exact h.turn_drawn
  · simp only [hframe]
    exact h.turn_drawn
  · intro delivered hlast
    exact ⟨Nat.le_succ_of_le (h.last_le delivered hlast).1, (h.last_le delivered hlast).2⟩
  · intro delivered hlast
    refine (h.converged delivered hlast).concat ?_
    have hle := (h.last_le delivered hlast).1
    simp only [hnext]
    omega
  · obtain ⟨before, kept, hlog, hcomplete, -, hheld⟩ := h.window
    refine ⟨before, kept ++ dropped, ?_, ?_, ?_, ?_⟩
    · -- what trimming drops moves out of the window, and stays among what is held
      simp only [hframe, turnLog_concat_self, hlog]
      rw [append_assoc, hsplit, hstate]
      simp only [append_assoc]
    · rw [hstate]
      intro hfalse
      simp only [Bool.or_eq_false_iff, Bool.not_eq_false', List.isEmpty_iff] at hfalse
      rw [hfalse.2, List.append_nil]
      exact hcomplete hfalse.1.1
    · rw [hstate]
      exact fun hnil => absurd hnil hnonempty
    · intro delivered hlast hturn
      have hle := (h.last_le delivered hlast).1
      have hnot : ¬ (retainedEvent original world.publication).eventSequence ≤
          delivered.frame.sequence := by omega
      rw [hframe] at hturn
      have hgrown : kept ++ dropped ++ (publishObserved original world.publication).retained =
          kept ++ world.publication.retained ++
            [retainedEvent original world.publication] := by
        rw [hstate, append_assoc, ← hsplit, append_assoc]
      rw [hgrown, filter_append, filter_singleton]
      simp only [hnot, decide_false, List.append_nil, cond_false]
      exact hheld delivered hlast hturn

/-- A frame that leaves the observer with the events of the turn from some point before the window
on. -/
theorem Follows.receive (h : Follows world) (before kept : List RetainedEvent)
    (hlog : turnLog world.log world.publication.frame.turnID =
      before ++ kept ++ world.publication.retained)
    (hcomplete : world.publication.frame.truncated = false → before ++ kept = [])
    (hempty : world.publication.retained = [] → before ++ kept = [])
    {frame : SessionObservationFrame}
    (hturn : frame.turnID = world.publication.frame.turnID)
    (hsequence : frame.sequence = world.publication.frame.sequence)
    (htruncated : frame.truncated = world.publication.frame.truncated)
    (hheld : (if frame.reset then frame.events else world.observer.held ++ frame.events) =
      (kept ++ world.publication.retained).map (·.event)) :
    Follows
      { world with
        observer := world.observer.receive frame (world.publication.retained.map (·.event)) } := by
  have hall : ∀ entry ∈ world.log, entry.2.eventSequence ≤ frame.sequence := by
    intro entry hentry
    rw [hsequence, h.sequence_eq]
    exact h.log_le entry hentry
  have hevents : turnEvents world.log frame.turnID frame.sequence =
      (before ++ kept ++ world.publication.retained).map (·.event) := by
    rw [turnEvents_eq_turnLog hall, hturn, hlog]
  refine { h with cursor := ?_, last_le := ?_, converged := ?_, window := ?_ }
  · rintro previous ⟨⟩
    exact ⟨_, rfl, rfl⟩
  · rintro delivered ⟨⟩
    simp only [hturn, hsequence, h.sequence_eq]
    exact ⟨Nat.le_refl _, h.turn_drawn⟩
  · rintro delivered ⟨⟩
    simp only [Observer.receive, hheld]
    refine ⟨?_, ?_, fun hfalse => ?_⟩
    · simp only [hevents, append_assoc, map_append]
      exact suffix_append _ _
    · rw [map_append]
      exact suffix_append _ _
    · have hnone := hcomplete (htruncated ▸ hfalse)
      rw [append_eq_nil_iff] at hnone
      simp only [hevents, hnone.1, hnone.2, nil_append]
  · refine ⟨before, kept, hlog, hcomplete, hempty, ?_⟩
    rintro delivered ⟨⟩ -
    have hkept : ((kept ++ world.publication.retained).filter fun event =>
        decide (event.eventSequence ≤ frame.sequence)) = kept ++ world.publication.retained := by
      refine filter_eq_self.mpr fun event hevent => decide_eq_true ?_
      refine mem_turnLog_le world.publication.frame.turnID hall ?_
      rw [hlog, append_assoc]
      exact mem_append_right _ hevent
    simp only [Observer.receive, hheld, hkept]

theorem events_frameSince_of_not_reset {turnID : Text} {sequence : ℕ} {current : PublicationState}
    (h : (frameSince (some (turnID, sequence)) current).reset = false) :
    (frameSince (some (turnID, sequence)) current).events = (current.retained.filter fun event =>
      decide (sequence < event.eventSequence)).map (·.event) := by
  change (if (frameSince (some (turnID, sequence)) current).reset = true then current.retained
    else current.retained.filter fun event => decide (sequence < event.eventSequence)).map _ = _
  rw [h]
  rfl

/-- **A poll brings the observer up to date**: where the cursor has fallen behind the window it is
reset, and otherwise the window holds all that it lacks. -/
theorem Follows.poll (h : Follows world) (hfew : world.updates < 2 ^ 64)
    (hchanged : ¬ world.observer.previous.any
      fun previous => previous.2 == world.publication.frame.sequence) :
    Follows
      { world with
        observer := world.observer.receive (frameSince world.observer.previous world.publication)
          (world.publication.retained.map (·.event)) } := by
  obtain ⟨before, kept, hlog, hcomplete, hempty, hheld⟩ := h.window
  by_cases hreset : (frameSince world.observer.previous world.publication).reset = true
  · -- everything retained replaces what was held
    refine h.receive (before ++ kept) [] ?_ ?_ ?_ rfl rfl rfl ?_
    · rw [List.append_nil]
      exact hlog
    · rw [List.append_nil]
      exact hcomplete
    · rw [List.append_nil]
      exact hempty
    · rw [if_pos hreset]
      simp only [frameSince] at hreset ⊢
      simp only [hreset, if_true, nil_append]
  · cases hprevious : world.observer.previous with
    | none =>
      rw [hprevious] at hreset
      exact absurd rfl hreset
    | some previous =>
      obtain ⟨delivered, hlast, rfl⟩ := h.cursor previous hprevious
      rw [hprevious] at hreset hchanged
      simp only [any_some, beq_iff_eq, h.sequence_eq] at hchanged
      have hnotReset := hreset
      simp only [frameSince, Bool.or_eq_true, not_or, bne_iff_ne, ne_eq, not_not] at hnotReset
      obtain ⟨hturn, holdest⟩ := hnotReset
      have hle := (h.last_le delivered hlast).1
      have hnext : nextSequence delivered.frame.sequence = delivered.frame.sequence + 1 :=
        Nat.mod_eq_of_lt (by omega)
      -- all that has left the window was seen
      have hseen : ∀ event ∈ kept, event.eventSequence ≤ delivered.frame.sequence := by
        intro event hevent
        cases hretained : world.publication.retained with
        | nil =>
          have hnone := hempty hretained
          rw [append_eq_nil_iff] at hnone
          rw [hnone.2] at hevent
          cases hevent
        | cons oldest rest =>
          rw [hretained, hnext] at holdest
          have hascending : (before ++ kept ++ world.publication.retained).Ascending
              (·.eventSequence) := hlog ▸ ascending_turnLog _ h.log_ascending
          have hlt : event.eventSequence < oldest.eventSequence :=
            (pairwise_append.mp hascending).2.2 event (mem_append_right _ hevent) oldest
              (hretained ▸ mem_cons_self)
          simp only [decide_eq_true_eq] at holdest
          omega
      have hkept : (kept.filter fun event =>
          decide (event.eventSequence ≤ delivered.frame.sequence)) = kept :=
        filter_eq_self.mpr fun event hevent => decide_eq_true (hseen event hevent)
      have hascending : world.publication.retained.Ascending (·.eventSequence) :=
        (ascending_turnLog world.publication.frame.turnID h.log_ascending).sublist
          (hlog ▸ sublist_append_right _ _)
      refine h.receive before kept hlog hcomplete hempty rfl rfl rfl ?_
      rw [if_neg hreset, hheld delivered hlast hturn, filter_append, hkept,
        events_frameSince_of_not_reset (Bool.eq_false_of_not_eq_true hreset), ← map_append,
        append_assoc, hascending.filter_append_filter]

/-- The number of updates never falls. -/
theorem updates_le_of_step {world' : ObservedWorld} {action : Action}
    (hstep : world.step action = some world') : world.updates ≤ world'.updates := by
  cases action with
  | beginTurn turnID generationStart durableTurnCount userText =>
    obtain ⟨-, hworld⟩ := ite_none_right_eq_some.mp hstep
    cases hworld
    exact Nat.le_succ _
  | publish event =>
    cases hstep
    unfold publishObservedLoopEvent
    split
    · exact Nat.le_refl _
    · exact Nat.le_succ _
  | setWaiting waiting | complete generationStart durableTurnCount interrupted =>
    cases hstep
    exact Nat.le_succ _
  | poll =>
    simp only [ObservedWorld.step] at hstep
    obtain ⟨-, hstep⟩ := ite_none_left_eq_some.mp hstep
    obtain ⟨-, hstep⟩ := ite_none_left_eq_some.mp hstep
    cases hstep
    exact Nat.le_refl _
  | reconnect =>
    cases hstep
    exact Nat.le_refl _

/-- **Every action keeps the invariant**, while the sequence numbers last. -/
theorem follows_step {world' : ObservedWorld} {action : Action} (h : Follows world)
    (hbounded : Bounded world.publication) (hstep : world.step action = some world')
    (hfew : world'.updates < 2 ^ 64) : Follows world' := by
  cases action with
  | beginTurn turnID generationStart durableTurnCount userText =>
    obtain ⟨hfresh, hworld⟩ := ite_none_right_eq_some.mp hstep
    cases hworld
    exact h.begin hfew hfresh generationStart durableTurnCount userText
  | publish event =>
    cases hstep
    cases hevent : observationEvent event with
    | none =>
      simp only [publishObservedLoopEvent, hevent]
      exact h
    | some original =>
      simp only [publishObservedLoopEvent, hevent] at hfew ⊢
      exact h.publish hbounded hfew original
  | setWaiting waiting | complete generationStart durableTurnCount interrupted =>
    cases hstep
    exact h.update hfew rfl rfl rfl rfl
  | poll =>
    simp only [ObservedWorld.step] at hstep
    obtain ⟨-, hstep⟩ := ite_none_left_eq_some.mp hstep
    obtain ⟨hchanged, hstep⟩ := ite_none_left_eq_some.mp hstep
    cases hstep
    exact h.poll hfew hchanged
  | reconnect =>
    cases hstep
    exact { h with
      cursor := fun _ hprevious => by cases hprevious
      window := h.window }

end Steps

end Observation
end HaskellAgent
