import HaskellAgent.Lib.FinMap
import HaskellAgent.Lib.Machine
import HaskellAgent.Server.EventReplay

/-!
# Event streams

A client that subscribes gets the events it has missed from the replay buffer, and every later one
through a queue of its own.  The queue is bounded: when it is full, its oldest event is dropped.  The
stream compares the number of each event with the one before it, and tells the client to refetch
when some are missing.

It cannot compare the first event of a stream that began when its boundary had no event.  What is
lost before that event is lost silently.
-/

open List Option Function FinMap Machine

namespace HaskellAgent

namespace Server

open NumberedLog

variable {ν : Type}

/-! ### Subscribers -/

structure EventSubscriber (ν : Type) where
  eventSubscriberBoundary : AccessBoundary
  eventSubscriberQueue : List (ServerEvent ν)

/-- What the supervisor keeps about events. -/
structure EventState (ν : Type) where
  /-- The buffer of a boundary; an empty one where there is none yet. -/
  stateEvents : AccessBoundary → EventBuffer ν
  stateNextSubscriberId : ℕ
  stateSubscribers : FinMap ℕ (EventSubscriber ν)

/-- Write to a bounded queue, dropping the oldest entry of a full one. -/
def offer {α : Type} (capacity : ℕ) (queue : List α) (a : α) : List α :=
  (if queue.length < capacity then queue else queue.tail) ++ [a]

def publishToSubscribers (capacity : ℕ) (state : EventState ν) (event : ServerEvent ν) :
    EventState ν :=
  { state with
    stateSubscribers := state.stateSubscribers.map fun subscriber =>
      if subscriber.eventSubscriberBoundary = event.serverEventBoundary then
        { subscriber with
          eventSubscriberQueue := offer capacity subscriber.eventSubscriberQueue event }
      else subscriber }

/-- `appendEventToState` and `publishToSubscribers`, which every transaction that appends an event
does together. -/
def appendEvent (config : SupervisorConfig) (now : ℤ) (boundary : AccessBoundary)
    (eventType : Text) (turnId sessionId : Option Text) (value : ν) (state : EventState ν) :
    ServerEvent ν × EventState ν :=
  let (event, buffer) :=
    appendReplayEvent config.supervisorEventReplayLimit now boundary eventType turnId sessionId
      value (state.stateEvents boundary)
  (event,
    publishToSubscribers config.supervisorEventReplayLimit
      { state with stateEvents := Function.update state.stateEvents boundary buffer } event)

inductive EventSubscriptionError
  | eventSubscriberLimitReached
  | eventSubscriberTenantLimitReached
  deriving DecidableEq

structure EventSubscription (ν : Type) where
  subscriptionReplay : List (ServerEvent ν)
  subscriptionResetRequired : Bool
  subscriptionLatestEventId : Option ℤ
  /-- The subscriber whose queue is the channel. -/
  subscriptionChannel : ℕ

def subscribeEvents (config : SupervisorConfig) (boundary : AccessBoundary)
    (lastEventId : Option ℤ) (state : EventState ν) :
    Except EventSubscriptionError (EventSubscription ν × EventState ν) :=
  let subscribers := state.stateSubscribers
  let tenantSubscriberCount := (subscribers.elems.filter fun subscriber =>
    subscriber.eventSubscriberBoundary.accessTenantId = boundary.accessTenantId).length
  if subscribers.keys.length ≥ config.supervisorMaxEventSubscribers then
    .error .eventSubscriberLimitReached
  else if tenantSubscriberCount ≥ config.supervisorMaxEventSubscribersPerTenant then
    .error .eventSubscriberTenantLimitReached
  else
    let selection := selectReplay lastEventId (state.stateEvents boundary)
    let subscriberId := state.stateNextSubscriberId
    .ok
      ({ subscriptionReplay := selection.replayEvents
         subscriptionResetRequired := selection.replayResetRequired
         subscriptionLatestEventId := selection.replayLatestEventId
         subscriptionChannel := subscriberId },
        { state with
          stateNextSubscriberId := subscriberId + 1
          stateSubscribers := subscribers.insert subscriberId
            { eventSubscriberBoundary := boundary, eventSubscriberQueue := [] } })

/-! ### Streams -/

/-- What is written to a client. -/
inductive Line (ν : Type)
  | reset
  | event (event : ServerEvent ν)
  | connected
  | keepAlive

def hasEventGap : Option ℤ → ServerEvent ν → Bool
  | none, _ => false
  | some previous, event => decide (previous + 1 < event.serverEventId)

def lastDeliveredId (initial : Option ℤ) (replay : List (ServerEvent ν)) : Option ℤ :=
  match replay.getLast? with
  | some event => some event.serverEventId
  | none => initial

/-- What `emitInitialEvents` writes, one after the other. -/
def initialLines (boundary : AccessBoundary) (subscription : EventSubscription ν) :
    List (Line ν) :=
  (if subscription.subscriptionResetRequired then [.reset] else []) ++
    ((subscription.subscriptionReplay.filter fun event =>
      event.serverEventBoundary = boundary).map .event ++ [.connected])

/-- What `eventLoop` writes for an event of its boundary. -/
def eventLines (previousId : Option ℤ) (event : ServerEvent ν) : List (Line ν) :=
  (if hasEventGap previousId event then [.reset] else []) ++ [.event event]

inductive StreamPhase (ν : Type)
  /-- It has these lines to write before it waits for the next event. -/
  | writing (lines : List (Line ν)) (previousId : Option ℤ)
  | waiting (previousId : Option ℤ)
  | stopped

structure EventStream (ν : Type) where
  boundary : AccessBoundary
  phase : StreamPhase ν
  /-- The number the client is owed the events after: its own, or the latest at the subscription. -/
  base : ℤ
  /-- History: the subscription asked for a reset. -/
  resetFirst : Bool
  /-- History: the lines written. -/
  written : List (Line ν)

/-- How an attempt to write a line ends. -/
inductive WriteOutcome
  | written
  /-- The line was written, but too late or without its flush. -/
  | cutOff
  | failed
  deriving DecidableEq

structure EventWorld (ν : Type) where
  state : EventState ν
  streams : FinMap ℕ (EventStream ν)
  /-- History: everything ever appended to a boundary. -/
  appended : AccessBoundary → List (ServerEvent ν)

def EventWorld.init : EventWorld ν where
  state := ⟨fun _ => emptyEventBuffer, 1, .empty⟩
  streams := .empty
  appended _ := []

inductive StreamEvent (ν : Type)
  | publish (now : ℤ) (boundary : AccessBoundary) (eventType : Text)
      (turnId sessionId : Option Text) (value : ν)
  | subscribe (boundary : AccessBoundary) (lastEventId : Option ℤ)
  | write (stream : ℕ) (outcome : WriteOutcome)
  /-- The loop reads an event from its queue. -/
  | read (stream : ℕ)
  /-- The timer of the loop wins, and its read has taken nothing. -/
  | timeout (stream : ℕ)
  /-- The timer wins over a read that has already taken an event. -/
  | loseRead (stream : ℕ)
  /-- `subscriptionClose`, when the stream has stopped. -/
  | close (stream : ℕ)

/-- Continue a stream after an attempt to write. -/
def EventStream.wrote (stream : EventStream ν) (line : Line ν) (rest : List (Line ν))
    (previousId : Option ℤ) : WriteOutcome → EventStream ν
  | .written =>
      { stream with
        written := stream.written ++ [line]
        phase := match rest with
          | [] => .waiting previousId
          | _ :: _ => .writing rest previousId }
  | .cutOff => { stream with written := stream.written ++ [line], phase := .stopped }
  | .failed => { stream with phase := .stopped }

/-- The rest of a queue after its first event, which the stream has taken. -/
def EventWorld.take (w : EventWorld ν) (i : ℕ) (rest : List (ServerEvent ν))
    (stream : EventStream ν) (phase : StreamPhase ν) : EventWorld ν :=
  { w with
    state := { w.state with
      stateSubscribers := w.state.stateSubscribers.insert i
        { eventSubscriberBoundary := stream.boundary, eventSubscriberQueue := rest } }
    streams := w.streams.insert i { stream with phase } }

variable (config : SupervisorConfig)

def EventWorld.step (w : EventWorld ν) : StreamEvent ν → Option (EventWorld ν)
  | .publish now boundary eventType turnId sessionId value =>
      let (event, state) :=
        appendEvent config now boundary eventType turnId sessionId value w.state
      some { w with
        state
        appended := Function.update w.appended boundary (w.appended boundary ++ [event]) }
  | .subscribe boundary lastEventId =>
      match subscribeEvents config boundary lastEventId w.state with
      | .error _ => some w
      | .ok (subscription, state) =>
          some { w with
            state
            streams := w.streams.insert subscription.subscriptionChannel
              { boundary
                phase := .writing (initialLines boundary subscription)
                  (lastDeliveredId subscription.subscriptionLatestEventId
                    subscription.subscriptionReplay)
                base := lastEventId.getD (w.appended boundary).length
                resetFirst := subscription.subscriptionResetRequired
                written := [] } }
  | .write i outcome =>
      (w.streams.lookup i).bind fun stream =>
        match stream.phase with
        | .writing (line :: rest) previousId =>
            some { w with streams := w.streams.insert i (stream.wrote line rest previousId outcome) }
        | _ => none
  | .read i =>
      (w.streams.lookup i).bind fun stream =>
        (w.state.stateSubscribers.lookup i).bind fun subscriber =>
          match stream.phase, subscriber.eventSubscriberQueue with
          | .waiting previousId, event :: rest =>
              some (w.take i rest stream
                (if event.serverEventBoundary = stream.boundary then
                  .writing (eventLines previousId event) (some event.serverEventId)
                else .waiting previousId))
          | _, _ => none
  | .timeout i =>
      (w.streams.lookup i).bind fun stream =>
        match stream.phase with
        | .waiting previousId =>
            some { w with
              streams := w.streams.insert i
                { stream with phase := .writing [.keepAlive] previousId } }
        | _ => none
  | .loseRead i =>
      (w.streams.lookup i).bind fun stream =>
        (w.state.stateSubscribers.lookup i).bind fun subscriber =>
          match stream.phase, subscriber.eventSubscriberQueue with
          | .waiting previousId, _ :: rest =>
              some (w.take i rest stream (.writing [.keepAlive] previousId))
          | _, _ => none
  | .close i =>
      (w.streams.lookup i).bind fun stream =>
        match stream.phase with
        | .stopped =>
            some { w with
              state := { w.state with
                stateSubscribers := w.state.stateSubscribers.delete i } }
        | _ => none

/-! ### What clients are owed -/

/-- The stream could not tell that it has lost events: it has read none, there was none when it
began, and it was not told to reset. -/
def EventStream.awaitsFirst (stream : EventStream ν) : Bool :=
  match stream.phase with
  | .writing _ none | .waiting none => !stream.resetFirst
  | _ => false

/-- **Nothing is lost before the first event of a stream that has none to compare it with**: its
queue is not full when an event is published, and its reads are not lost to the timer. -/
def KeepsFirstEvents (w : EventWorld ν) : StreamEvent ν → Prop
  | .publish _ boundary _ _ _ _ => ∀ i ∈ w.streams.keys, ∀ stream ∈ w.streams.lookup i,
      ∀ subscriber ∈ w.state.stateSubscribers.lookup i,
        stream.boundary = boundary → stream.awaitsFirst = true →
          subscriber.eventSubscriberQueue.length < config.supervisorEventReplayLimit
  | .loseRead i => ∀ stream ∈ w.streams.lookup i, stream.awaitsFirst = false
  | _ => True

instance (w : EventWorld ν) : ∀ event, Decidable (KeepsFirstEvents config w event)
  | .publish _ boundary _ _ _ _ =>
      inferInstanceAs (Decidable (∀ i ∈ w.streams.keys, ∀ stream ∈ w.streams.lookup i,
        ∀ subscriber ∈ w.state.stateSubscribers.lookup i,
          stream.boundary = boundary → stream.awaitsFirst = true →
            subscriber.eventSubscriberQueue.length < config.supervisorEventReplayLimit))
  | .loseRead i =>
      inferInstanceAs (Decidable (∀ stream ∈ w.streams.lookup i, stream.awaitsFirst = false))
  | .subscribe .. | .write .. | .read _ | .timeout _ | .close _ =>
      inferInstanceAs (Decidable True)

/-- The events among some lines. -/
def eventsOf (lines : List (Line ν)) : List (ServerEvent ν) :=
  lines.filterMap fun
    | .event event => some event
    | _ => none

/-- The number of the last event written, and whether a reset has been written since. -/
def cursor (base : ℤ) (lines : List (Line ν)) : ℤ × Bool :=
  lines.foldl (fun at_ line => match line with
    | .event event => (event.serverEventId, false)
    | .reset => (at_.1, true)
    | .connected | .keepAlive => at_) (base, false)

/-- Before an event is written after others of the log were skipped, a reset is. -/
def NoSilentSkip (log : List (ServerEvent ν)) (base : ℤ) (lines : List (Line ν)) : Prop :=
  ∀ before event after, lines = before ++ .event event :: after →
    (∃ skipped ∈ log, (cursor base before).1 < skipped.serverEventId ∧
      skipped.serverEventId < event.serverEventId) → (cursor base before).2 = true

/-! ### Lines -/

variable {log : List (ServerEvent ν)} {base : ℤ} {lines lines' : List (Line ν)} {line : Line ν}
  {event : ServerEvent ν}

@[simp] theorem eventsOf_append (lines lines' : List (Line ν)) :
    eventsOf (lines ++ lines') = eventsOf lines ++ eventsOf lines' := filterMap_append

theorem eventsOf_map_event (events : List (ServerEvent ν)) :
    eventsOf (events.map .event) = events := by
  rw [eventsOf, filterMap_map]
  exact filterMap_some

/-- Lines without an event. -/
def Quiet (lines : List (Line ν)) : Prop := ∀ event, .event event ∉ lines

theorem eventsOf_of_quiet (h : Quiet lines) : eventsOf lines = [] := by
  rw [eventsOf, filterMap_eq_nil_iff]
  intro line hmem
  cases line with
  | event event => exact absurd hmem (h event)
  | reset | connected | keepAlive => rfl

theorem quiet_singleton (h : ∀ event, line ≠ .event event) : Quiet [line] := by
  intro event hmem
  exact h event (mem_singleton.mp hmem).symm

theorem cursor_append (lines lines' : List (Line ν)) :
    cursor base (lines ++ lines') =
      lines'.foldl (fun at_ line => match line with
        | .event event => (event.serverEventId, false)
        | .reset => (at_.1, true)
        | .connected | .keepAlive => at_) (cursor base lines) := by
  rw [cursor, foldl_append]
  rfl

@[simp] theorem cursor_concat_event :
    cursor base (lines ++ [.event event]) = (event.serverEventId, false) := by
  rw [cursor_append]
  rfl

@[simp] theorem cursor_concat_reset :
    cursor base (lines ++ [.reset]) = ((cursor base lines).1, true) := by
  rw [cursor_append]
  rfl

@[simp] theorem cursor_concat_connected : cursor base (lines ++ [.connected]) = cursor base lines := by
  rw [cursor_append]
  rfl

@[simp] theorem cursor_concat_keepAlive : cursor base (lines ++ [.keepAlive]) = cursor base lines := by
  rw [cursor_append]
  rfl

theorem NoSilentSkip.nil : NoSilentSkip log base [] := by
  intro before event after h
  cases before <;> cases h

/-- What holds of some lines holds of the lines written so far. -/
theorem NoSilentSkip.of_append (h : NoSilentSkip log base (lines ++ lines')) :
    NoSilentSkip log base lines := by
  rintro before event after rfl hskip
  exact h before event (after ++ lines') (by simp) hskip

/-- One more line. -/
theorem NoSilentSkip.concat (h : NoSilentSkip log base lines)
    (hline : ∀ event, line = .event event →
      (∃ skipped ∈ log, (cursor base lines).1 < skipped.serverEventId ∧
        skipped.serverEventId < event.serverEventId) → (cursor base lines).2 = true) :
    NoSilentSkip log base (lines ++ [line]) := by
  intro before event after heq hskip
  cases after using List.reverseRecOn with
  | nil =>
    obtain ⟨rfl, hlast⟩ := append_inj' heq rfl
    exact hline event (List.cons.inj hlast).1 hskip
  | append_singleton after last =>
    -- the event is one of the earlier lines
    have hsplit : lines ++ [line] = (before ++ .event event :: after) ++ [last] := by
      rw [heq, append_assoc, cons_append]
    obtain ⟨rfl, -⟩ := append_inj' hsplit rfl
    exact h before event after rfl hskip

theorem NoSilentSkip.concat_quiet (h : NoSilentSkip log base lines)
    (hquiet : ∀ event, line ≠ .event event) : NoSilentSkip log base (lines ++ [line]) :=
  h.concat fun event heq => absurd heq (hquiet event)

section

variable (hn : Numbered (·.serverEventId) log)
include hn

/-- A later event of the log is none of those skipped before. -/
theorem NoSilentSkip.log_concat
    (hnew : event.serverEventId = log.length + 1) (h : NoSilentSkip log base lines)
    (hmem : ∀ e ∈ eventsOf lines, e ∈ log) : NoSilentSkip (log ++ [event]) base lines := by
  rintro before e after rfl ⟨skipped, hskipped, hlt, hlt'⟩
  refine h before e after rfl ⟨skipped, ?_, hlt, hlt'⟩
  rcases mem_append.mp hskipped with hold | hlast
  · exact hold
  · have he : e ∈ log := by
      refine hmem e ?_
      rw [eventsOf, mem_filterMap]
      exact ⟨.event e, by simp, rfl⟩
    have hle := (hn.of_mem he).2
    rw [mem_singleton.mp hlast, hnew] at hlt'
    omega

/-- A window of the log may be written from where the stream is, or after a reset. -/
theorem NoSilentSkip.append_drop {k : ℕ}
    (h : NoSilentSkip log base lines)
    (hstart : (cursor base lines).2 = true ∨ (k : ℤ) ≤ (cursor base lines).1) :
    NoSilentSkip log base (lines ++ (log.drop k).map .event) := by
  induction hlen : log.length - k generalizing k lines with
  | zero =>
    rw [drop_eq_nil_of_le (by omega), map_nil, List.append_nil]
    exact h
  | succ m ih =>
    have hk : k < log.length := by omega
    have hid : log[k].serverEventId = k + 1 := hn k hk
    have hnext : NoSilentSkip log base (lines ++ [.event log[k]]) := by
      refine h.concat fun event heq hskip => ?_
      obtain rfl : log[k] = event := Line.event.inj heq
      rcases hstart with hreset | hat
      · exact hreset
      · obtain ⟨skipped, -, hlt, hlt'⟩ := hskip
        omega
    have hat : ((k + 1 : ℕ) : ℤ) ≤ (cursor base (lines ++ [.event log[k]])).1 := by
      rw [cursor_concat_event, hid]
      exact le_refl _
    have hlen' : log.length - (k + 1) = m := by omega
    have hrest := ih hnext (.inr hat) hlen'
    rw [drop_eq_getElem_cons hk, map_cons]
    rwa [append_assoc, singleton_append] at hrest

/-- The cursor after a window of the log. -/
theorem cursor_append_drop {k : ℕ} (hk : k < log.length) :
    cursor base (lines ++ (log.drop k).map .event) = ((log.length : ℤ), false) := by
  obtain ⟨front, last, hsplit⟩ : ∃ front last, log.drop k = front ++ [last] := by
    have hne : log.drop k ≠ [] := by
      rw [Ne, drop_eq_nil_iff]
      omega
    exact ⟨_, _, (dropLast_concat_getLast hne).symm⟩
  have hlast : log.getLast? = some last := by
    have hdrop : (log.drop k).getLast? = some last := by rw [hsplit, List.getLast?_concat]
    rwa [List.getLast?_drop, if_neg (by omega)] at hdrop
  rw [hsplit, map_append, ← append_assoc]
  change cursor base ((lines ++ front.map .event) ++ [.event last]) = _
  rw [cursor_concat_event, hn.getLast hlast]

end

/-! ### The invariant -/

/-- The lines a stream has written, and those it is about to write. -/
def EventStream.planned (stream : EventStream ν) : List (Line ν) :=
  match stream.phase with
  | .writing lines _ => stream.written ++ lines
  | .waiting _ | .stopped => stream.written

/-- The lines of a stream are events of its log in order, and it says when it skips some. -/
structure Faithful (log : List (ServerEvent ν)) (base : ℤ) (lines : List (Line ν)) : Prop where
  events : ∀ event ∈ eventsOf lines, event ∈ log
  ascending : (eventsOf lines).Pairwise fun a b => a.serverEventId < b.serverEventId
  said : NoSilentSkip log base lines

theorem Faithful.of_append (h : Faithful log base (lines ++ lines')) : Faithful log base lines where
  events event hmem := h.events event (by
    rw [eventsOf_append]
    exact mem_append_left _ hmem)
  ascending := by
    have hasc := h.ascending
    rw [eventsOf_append] at hasc
    exact (pairwise_append.mp hasc).1
  said := h.said.of_append

theorem Faithful.concat_quiet (h : Faithful log base lines)
    (hquiet : ∀ event, line ≠ .event event) : Faithful log base (lines ++ [line]) where
  events event hmem := by
    rw [eventsOf_append, eventsOf_of_quiet (quiet_singleton hquiet), List.append_nil] at hmem
    exact h.events event hmem
  ascending := by
    rw [eventsOf_append, eventsOf_of_quiet (quiet_singleton hquiet), List.append_nil]
    exact h.ascending
  said := h.said.concat_quiet hquiet

theorem Faithful.concat_event (h : Faithful log base lines) (hmem : event ∈ log)
    (hlater : ∀ e ∈ eventsOf lines, e.serverEventId < event.serverEventId)
    (hsaid : (∃ skipped ∈ log, (cursor base lines).1 < skipped.serverEventId ∧
      skipped.serverEventId < event.serverEventId) → (cursor base lines).2 = true) :
    Faithful log base (lines ++ [.event event]) where
  events e he := by
    rw [eventsOf_append, mem_append] at he
    rcases he with hold | hnew
    · exact h.events e hold
    · rw [mem_singleton.mp hnew]
      exact hmem
  ascending := by
    rw [eventsOf_append, pairwise_append]
    refine ⟨h.ascending, pairwise_singleton _ _, fun a ha b hb => ?_⟩
    rw [mem_singleton.mp hb]
    exact hlater a ha
  said := h.said.concat fun e heq => by
    obtain rfl : event = e := Line.event.inj heq
    exact hsaid

theorem Faithful.log_concat (hn : Numbered (·.serverEventId) log)
    (hnew : event.serverEventId = log.length + 1) (h : Faithful log base lines) :
    Faithful (log ++ [event]) base lines where
  events e he := mem_append_left _ (h.events e he)
  ascending := h.ascending
  said := h.said.log_concat hn hnew h.events

/-- What a stream that compares with `previousId` has planned when its queue begins after the first
`k` events of the log. -/
def Ready (resetFirst : Bool) (base : ℤ) (lines : List (Line ν)) (k : ℕ) : Option ℤ → Prop
  | some previous => previous ≤ k ∧ previous ≤ (cursor base lines).1 ∧
      ∀ event ∈ eventsOf lines, event.serverEventId ≤ previous
  | none => eventsOf lines = [] ∧ (resetFirst = false → k = 0) ∧
      (resetFirst = true → (cursor base lines).2 = true)

/-- The same for the phases of a stream. -/
def EventStream.ReadyAt (stream : EventStream ν) (k : ℕ) : Prop :=
  match stream.phase with
  | .writing _ previousId | .waiting previousId =>
      Ready stream.resetFirst stream.base stream.planned k previousId
  | .stopped => True

/-- The buffers and queues are windows of the logs, and the streams are faithful to them. -/
structure EventInvariant (limit : ℕ) (w : EventWorld ν) : Prop where
  buffers : ∀ boundary, Replays limit (w.appended boundary) (w.state.stateEvents boundary)
  boundaries : ∀ boundary, ∀ event ∈ w.appended boundary, event.serverEventBoundary = boundary
  streams : ∀ i stream, w.streams.lookup i = some stream →
    Faithful (w.appended stream.boundary) stream.base stream.planned
  queues : ∀ i stream subscriber, w.streams.lookup i = some stream →
    w.state.stateSubscribers.lookup i = some subscriber →
    subscriber.eventSubscriberBoundary = stream.boundary ∧
    ∃ k ≤ (w.appended stream.boundary).length,
      subscriber.eventSubscriberQueue = (w.appended stream.boundary).drop k ∧ stream.ReadyAt k
  fresh : ∀ i ≥ w.state.stateNextSubscriberId, w.streams.lookup i = none

theorem init_eventInvariant (limit : ℕ) : EventInvariant limit (.init : EventWorld ν) where
  buffers _ := replays_empty limit
  boundaries _ _ h := by cases h
  streams _ _ h := by cases h
  queues _ _ _ h := by cases h
  fresh _ _ := rfl

variable {w w' : EventWorld ν} {stream : EventStream ν} {limit : ℕ} {i k : ℕ}
  {previousId : Option ℤ} {resetFirst : Bool}

variable {rest : List (ServerEvent ν)}

/-- **Reading the next event of the queue plans it faithfully.** -/
theorem faithful_eventLines (hn : Numbered (·.serverEventId) log) (hf : Faithful log base lines)
    (hr : Ready resetFirst base lines k previousId) (hq : log.drop k = event :: rest) :
    Faithful log base (lines ++ eventLines previousId event) ∧
      Ready resetFirst base (lines ++ eventLines previousId event) (k + 1)
        (some event.serverEventId) := by
  obtain ⟨hid, -, hmem, -⟩ := hn.head_drop hq
  have hlater : ∀ e ∈ eventsOf lines, e.serverEventId < event.serverEventId := by
    intro e he
    cases previousId with
    | none =>
      rw [hr.1] at he
      cases he
    | some previous =>
      have hle := hr.2.2 e he
      have hk := hr.1
      omega
  -- the comparison says when the log has events in between
  have hsaid : hasEventGap previousId event = false →
      (∃ skipped ∈ log, (cursor base lines).1 < skipped.serverEventId ∧
        skipped.serverEventId < event.serverEventId) → (cursor base lines).2 = true := by
    rintro hgap ⟨skipped, hskipped, hlt, hlt'⟩
    cases previousId with
    | none =>
      cases hreset : resetFirst with
      | true => exact hr.2.2 hreset
      | false =>
        have hk : k = 0 := hr.2.1 hreset
        have hpos := (hn.of_mem hskipped).1
        omega
    | some previous =>
      simp only [hasEventGap, decide_eq_false_iff_not] at hgap
      have hprev := hr.2.1
      omega
  have hplan : Faithful log base (lines ++ eventLines previousId event) := by
    cases hgap : hasEventGap previousId event with
    | false =>
      simp only [eventLines, hgap, Bool.false_eq_true, if_false, nil_append]
      exact hf.concat_event hmem hlater (hsaid hgap)
    | true =>
      simp only [eventLines, hgap, if_true]
      rw [← append_assoc]
      have hreset : Faithful log base (lines ++ [.reset]) := hf.concat_quiet (by simp)
      refine hreset.concat_event hmem ?_ fun _ => by rw [cursor_concat_reset]
      rw [eventsOf_append, eventsOf_of_quiet (quiet_singleton (by simp)), List.append_nil]
      exact hlater
  have hcursor : (cursor base (lines ++ eventLines previousId event)).1 = event.serverEventId := by
    rw [eventLines, ← append_assoc, cursor_concat_event]
  refine ⟨hplan, by rw [hid]; push_cast; exact le_refl _, le_of_eq hcursor.symm, fun e he => ?_⟩
  have hevents : eventsOf (lines ++ eventLines previousId event) = eventsOf lines ++ [event] := by
    have hgap : eventsOf (if hasEventGap previousId event then [.reset] else [] : List (Line ν))
        = [] := by
      split <;> rfl
    rw [eventLines, ← append_assoc, eventsOf_append, eventsOf_append, hgap, List.append_nil]
    rfl
  rw [hevents, mem_append, mem_singleton] at he
  rcases he with hold | rfl
  · exact le_of_lt (hlater e hold)
  · exact le_refl _

/-- What is published leaves a window of the log, one entry further on if the queue was full. -/
theorem offer_drop {queue : List (ServerEvent ν)} (hlimit : 0 < limit)
    (hk : k ≤ log.length) (hq : queue = log.drop k) :
    ∃ k' ≤ (log ++ [event]).length, offer limit queue event = (log ++ [event]).drop k' ∧
      k ≤ k' ∧ (queue.length < limit → k' = k) := by
  by_cases hroom : queue.length < limit
  · refine ⟨k, ?_, ?_, le_refl k, fun _ => rfl⟩
    · rw [length_append]
      omega
    · rw [offer, if_pos hroom, hq, drop_concat hk]
  · have hlt : k + 1 ≤ log.length := by
      rw [hq, length_drop] at hroom
      omega
    refine ⟨k + 1, ?_, ?_, Nat.le_succ k, fun h => absurd h hroom⟩
    · rw [length_append]
      omega
    · rw [offer, if_neg hroom, hq, tail_drop, drop_concat hlt]

/-- A stream that does not await its first event may lose events from its queue. -/
theorem ready_of_le {k' : ℕ} (hle : k ≤ k')
    (hfirst : previousId = none → resetFirst = false → k' = k)
    (h : Ready resetFirst base lines k previousId) : Ready resetFirst base lines k' previousId := by
  cases previousId with
  | none => exact ⟨h.1, fun hreset => (hfirst rfl hreset).trans (h.2.1 hreset), h.2.2⟩
  | some previous =>
    have hk := h.1
    exact ⟨by omega, h.2⟩

theorem EventStream.ReadyAt.of_le {k' : ℕ} (hle : k ≤ k')
    (hfirst : stream.awaitsFirst = true → k' = k) (h : stream.ReadyAt k) : stream.ReadyAt k' := by
  unfold EventStream.ReadyAt at h ⊢
  unfold EventStream.awaitsFirst at hfirst
  cases hphase : stream.phase with
  | writing lines previousId | waiting previousId =>
    simp only [hphase] at h hfirst ⊢
    refine ready_of_le hle (fun hnone hreset => ?_) h
    subst hnone
    exact hfirst (by rw [hreset]; rfl)
  | stopped => trivial

/-! ### One lemma for each step -/

/-- A step of one stream: the other streams and their queues are left alone. -/
theorem EventInvariant.update {stream' : EventStream ν} {state : EventState ν}
    (hI : EventInvariant limit w)
    (hevents : state.stateEvents = w.state.stateEvents)
    (hnext : w.state.stateNextSubscriberId ≤ state.stateNextSubscriberId)
    (hi : i < state.stateNextSubscriberId)
    (hothers : ∀ j, j ≠ i →
      state.stateSubscribers.lookup j = w.state.stateSubscribers.lookup j)
    (hf : Faithful (w.appended stream'.boundary) stream'.base stream'.planned)
    (hq : ∀ subscriber, state.stateSubscribers.lookup i = some subscriber →
      subscriber.eventSubscriberBoundary = stream'.boundary ∧
      ∃ k ≤ (w.appended stream'.boundary).length,
        subscriber.eventSubscriberQueue = (w.appended stream'.boundary).drop k ∧
          stream'.ReadyAt k) :
    EventInvariant limit { w with state, streams := w.streams.insert i stream' } where
  buffers := by
    rw [hevents]
    exact hI.buffers
  boundaries := hI.boundaries
  streams j stream hj := by
    rw [lookup_insert] at hj
    split at hj
    · rw [← some.inj hj]
      exact hf
    · exact hI.streams j stream hj
  queues j stream subscriber hj hsub := by
    rw [lookup_insert] at hj
    split at hj
    · next heq =>
      rw [← some.inj hj]
      exact hq subscriber (heq ▸ hsub)
    · next hne =>
      rw [hothers j hne] at hsub
      exact hI.queues j stream subscriber hj hsub
  fresh j hj := by
    have hlt : i < j := lt_of_lt_of_le hi hj
    rw [lookup_insert_of_ne (Ne.symm (ne_of_lt hlt))]
    exact hI.fresh j (le_trans hnext hj)

theorem EventInvariant.lt_next (hI : EventInvariant limit w) (h : w.streams.lookup i = some stream) :
    i < w.state.stateNextSubscriberId := by
  by_contra hge
  rw [hI.fresh i (Nat.le_of_not_lt hge)] at h
  cases h

/-- A step that leaves the queue of the stream alone. -/
theorem EventInvariant.update_stream {stream' : EventStream ν} (hI : EventInvariant limit w)
    (hs : w.streams.lookup i = some stream) (hb : stream'.boundary = stream.boundary)
    (hf : Faithful (w.appended stream'.boundary) stream'.base stream'.planned)
    (hr : ∀ k, stream.ReadyAt k → stream'.ReadyAt k) :
    EventInvariant limit { w with streams := w.streams.insert i stream' } := by
  refine hI.update rfl (le_refl _) (hI.lt_next hs) (fun _ _ => rfl) hf fun subscriber hsub => ?_
  obtain ⟨hsb, k, hk, hq, hready⟩ := hI.queues i stream subscriber hs hsub
  rw [hb]
  exact ⟨hsb, k, hk, hq, hr k hready⟩

variable {subscriber : EventSubscriber ν}

/-- A step that takes the first event of the queue. -/
theorem EventInvariant.take {phase : StreamPhase ν} (hI : EventInvariant limit w)
    (hs : w.streams.lookup i = some stream)
    (hsub : w.state.stateSubscribers.lookup i = some subscriber)
    (hq : subscriber.eventSubscriberQueue = event :: rest)
    (hnext : ∀ k, (w.appended stream.boundary).drop k = event :: rest → stream.ReadyAt k →
      Faithful (w.appended stream.boundary) stream.base
          ({ stream with phase } : EventStream ν).planned ∧
        ({ stream with phase } : EventStream ν).ReadyAt (k + 1)) :
    EventInvariant limit (w.take i rest stream phase) := by
  obtain ⟨-, k, hk, hdrop, hready⟩ := hI.queues i stream subscriber hs hsub
  rw [hq] at hdrop
  obtain ⟨hf, hready'⟩ := hnext k hdrop.symm hready
  obtain ⟨-, hlt, -, hrest⟩ := (hI.buffers stream.boundary).numbered.head_drop hdrop.symm
  refine hI.update rfl (le_refl _) (hI.lt_next hs) ?_ hf fun subscriber' hsub' => ?_
  · intro j hne
    exact lookup_insert_of_ne hne
  · rw [lookup_insert_self] at hsub'
    rw [← some.inj hsub']
    exact ⟨rfl, k + 1, hlt, hrest.symm, hready'⟩

theorem write_invariant {lines : List (Line ν)} {outcome : WriteOutcome}
    (hI : EventInvariant limit w) (hs : w.streams.lookup i = some stream)
    (hphase : stream.phase = .writing (line :: lines) previousId) :
    EventInvariant limit { w with
      streams := w.streams.insert i (stream.wrote line lines previousId outcome) } := by
  have hf := hI.streams i stream hs
  have hplanned : stream.planned = stream.written ++ [line] ++ lines := by
    rw [EventStream.planned, hphase, append_assoc]
    rfl
  cases outcome with
  | written =>
    -- what is planned stays the same
    have hsame : (stream.wrote line lines previousId .written).planned = stream.planned := by
      rw [hplanned]
      cases lines with
      | nil => exact (List.append_nil _).symm
      | cons _ _ => rfl
    refine hI.update_stream hs rfl (hsame ▸ hf) fun k hready => ?_
    unfold EventStream.ReadyAt at hready ⊢
    rw [hphase] at hready
    cases lines with
    | nil | cons _ _ => exact hsame ▸ hready
  | cutOff =>
    refine hI.update_stream hs rfl ?_ fun _ _ => trivial
    rw [hplanned] at hf
    exact hf.of_append
  | failed =>
    refine hI.update_stream hs rfl ?_ fun _ _ => trivial
    rw [hplanned, append_assoc] at hf
    exact hf.of_append

/-- A line without an event may be planned by a stream that waits. -/
theorem ready_concat_keepAlive (h : Ready resetFirst base lines k previousId) :
    Ready resetFirst base (lines ++ [.keepAlive]) k previousId := by
  have hevents : eventsOf (lines ++ [.keepAlive]) = eventsOf lines := by
    rw [eventsOf_append]
    exact List.append_nil _
  cases previousId with
  | none => exact ⟨hevents.trans h.1, h.2.1, by rw [cursor_concat_keepAlive]; exact h.2.2⟩
  | some previous =>
    refine ⟨h.1, by rw [cursor_concat_keepAlive]; exact h.2.1, ?_⟩
    rw [hevents]
    exact h.2.2

section

variable (hI : EventInvariant limit w)
include hI

theorem timeout_invariant (hs : w.streams.lookup i = some stream)
    (hphase : stream.phase = .waiting previousId) :
    EventInvariant limit { w with
      streams := w.streams.insert i
        { stream with phase := .writing [.keepAlive] previousId } } := by
  have hf := hI.streams i stream hs
  simp only [EventStream.planned, hphase] at hf
  refine hI.update_stream hs rfl (hf.concat_quiet (by simp)) fun k hready => ?_
  simp only [EventStream.ReadyAt, EventStream.planned, hphase] at hready
  exact ready_concat_keepAlive hready

theorem read_invariant (hs : w.streams.lookup i = some stream)
    (hsub : w.state.stateSubscribers.lookup i = some subscriber)
    (hphase : stream.phase = .waiting previousId)
    (hq : subscriber.eventSubscriberQueue = event :: rest) :
    EventInvariant limit (w.take i rest stream
      (if event.serverEventBoundary = stream.boundary then
        .writing (eventLines previousId event) (some event.serverEventId)
      else .waiting previousId)) := by
  have hf := hI.streams i stream hs
  simp only [EventStream.planned, hphase] at hf
  have hn := (hI.buffers stream.boundary).numbered
  refine hI.take hs hsub hq fun k hdrop hready => ?_
  -- the queue of a stream has events of its boundary only
  have hb : event.serverEventBoundary = stream.boundary :=
    hI.boundaries stream.boundary event (hn.head_drop hdrop).2.2.1
  simp only [EventStream.ReadyAt, EventStream.planned, hphase] at hready
  rw [if_pos hb]
  exact faithful_eventLines hn hf hready hdrop

theorem loseRead_invariant (hs : w.streams.lookup i = some stream)
    (hsub : w.state.stateSubscribers.lookup i = some subscriber)
    (hphase : stream.phase = .waiting previousId)
    (hq : subscriber.eventSubscriberQueue = event :: rest) (hkeeps : stream.awaitsFirst = false) :
    EventInvariant limit (w.take i rest stream (.writing [.keepAlive] previousId)) := by
  have hf := hI.streams i stream hs
  simp only [EventStream.planned, hphase] at hf
  refine hI.take hs hsub hq fun k _ hready => ⟨hf.concat_quiet (by simp), ?_⟩
  have hready' := hready.of_le (Nat.le_succ k) fun h => by
    rw [hkeeps] at h
    cases h
  simp only [EventStream.ReadyAt, EventStream.planned, hphase] at hready'
  exact ready_concat_keepAlive hready'

theorem close_invariant :
    EventInvariant limit { w with
      state := { w.state with stateSubscribers := w.state.stateSubscribers.delete i } } where
  buffers := hI.buffers
  boundaries := hI.boundaries
  streams := hI.streams
  queues j stream subscriber hj hsub := by
    rw [lookup_delete] at hsub
    split at hsub
    · cases hsub
    · exact hI.queues j stream subscriber hj hsub
  fresh := hI.fresh

end

/-- The subscribers of the boundary get the event, and nothing else changes for them. -/
theorem lookup_publishToSubscribers {state : EventState ν}
    (h : (publishToSubscribers limit state event).stateSubscribers.lookup i = some subscriber) :
    ∃ old, state.stateSubscribers.lookup i = some old ∧
      subscriber.eventSubscriberBoundary = old.eventSubscriberBoundary ∧
      subscriber.eventSubscriberQueue =
        if old.eventSubscriberBoundary = event.serverEventBoundary then
          offer limit old.eventSubscriberQueue event
        else old.eventSubscriberQueue := by
  simp only [publishToSubscribers, lookup_map, map_eq_some_iff] at h
  obtain ⟨old, hold, rfl⟩ := h
  refine ⟨old, hold, ?_⟩
  split <;> exact ⟨rfl, rfl⟩

variable {config : SupervisorConfig} {boundary : AccessBoundary} {buffer : EventBuffer ν}

theorem publish_invariant {now : ℤ}
    {eventType : Text} {turnId sessionId : Option Text} {value : ν}
    (hlimit : 0 < config.supervisorEventReplayLimit)
    (hI : EventInvariant config.supervisorEventReplayLimit w)
    (hkeeps : KeepsFirstEvents config w
      (.publish now boundary eventType turnId sessionId value))
    (hst : w.step config (.publish now boundary eventType turnId sessionId value) = some w') :
    EventInvariant config.supervisorEventReplayLimit w' := by
  simp only [EventWorld.step, appendEvent, some.injEq] at hst
  obtain ⟨event, buffer, happend⟩ : ∃ event buffer,
      appendReplayEvent config.supervisorEventReplayLimit now boundary eventType turnId sessionId
        value (w.state.stateEvents boundary) = (event, buffer) := ⟨_, _, rfl⟩
  have hbuffer := hI.buffers boundary
  have hreplays := hbuffer.append now boundary eventType turnId sessionId value
  have heb : event.serverEventBoundary = boundary :=
    (congrArg (fun result => result.1.serverEventBoundary) happend).symm
  have hid : event.serverEventId = (w.appended boundary).length + 1 :=
    (congrArg (fun result => result.1.serverEventId) happend).symm.trans hbuffer.nextId
  rw [happend] at hst hreplays
  subst hst
  refine ⟨fun b => ?_, fun b e he => ?_, fun j stream hj => ?_, fun j stream subscriber hj hsub => ?_,
    hI.fresh⟩
  · by_cases hb : b = boundary
    · subst hb
      simp only [publishToSubscribers, update_self]
      exact hreplays
    · simp only [publishToSubscribers, update_of_ne hb]
      exact hI.buffers b
  · by_cases hb : b = boundary
    · subst hb
      simp only [update_self, mem_append, mem_singleton] at he
      rcases he with hold | rfl
      · exact hI.boundaries b e hold
      · exact heb
    · simp only [update_of_ne hb] at he
      exact hI.boundaries b e he
  · have hf := hI.streams j stream hj
    by_cases hb : stream.boundary = boundary
    · simp only [hb, update_self]
      rw [hb] at hf
      exact hf.log_concat hbuffer.numbered hid
    · simp only [update_of_ne hb]
      exact hf
  · obtain ⟨old, hold, hsb, hsq⟩ := lookup_publishToSubscribers hsub
    obtain ⟨hob, k, hk, hq, hready⟩ := hI.queues j stream old hj hold
    refine ⟨hsb.trans hob, ?_⟩
    rw [hsq, hob, heb]
    by_cases hb : stream.boundary = boundary
    · rw [if_pos hb]
      simp only [hb, update_self]
      rw [hb] at hk hq
      obtain ⟨k', hk', hoffer, hle, hroom⟩ := offer_drop hlimit hk hq
      refine ⟨k', hk', hoffer, hready.of_le hle fun hfirst => hroom ?_⟩
      -- a stream that awaits its first event has room in its queue
      refine hkeeps j ?_ stream hj old hold hb hfirst
      rw [w.streams.mem_keys, hj]
      rfl
    · rw [if_neg hb]
      simp only [update_of_ne hb]
      exact ⟨k, hk, hq, hready⟩

/-! ### Subscriptions -/

/-- A selection is a window of the log; without a reset it begins where the client is. -/
theorem exists_replayEvents_eq_drop (h : Replays limit log buffer)
    (hlimit : 0 < limit) (hne : log ≠ []) (lastEventId : Option ℤ) :
    ∃ k, (selectReplay lastEventId buffer).replayEvents = log.drop k ∧
      ((selectReplay lastEventId buffer).replayResetRequired = false →
        (k : ℤ) ≤ lastEventId.getD log.length) ∧
      (log.length ≤ k → (log.length : ℤ) ≤ lastEventId.getD log.length) := by
  have hpos : 0 < log.length := length_pos_iff.mpr hne
  cases lastEventId with
  | none =>
    refine ⟨log.length, ?_, fun _ => le_refl _, fun _ => le_refl _⟩
    rw [drop_eq_nil_of_le (le_refl _)]
    rfl
  | some requested =>
    refine ⟨max (log.length - limit) requested.toNat, h.replayEvents requested, ?_, ?_⟩
    · intro hreset
      have hfirst := h.oldest hlimit hne
      simp only [selectReplay, hfirst, Bool.or_eq_false_iff, decide_eq_false_iff_not] at hreset
      simp only [getD_some]
      omega
    · intro hle
      simp only [getD_some]
      omega

/-- The replay of an empty log is empty. -/
theorem replayEvents_of_nil (h : Replays limit [] buffer)
    (lastEventId : Option ℤ) : (selectReplay lastEventId buffer).replayEvents = [] := by
  cases lastEventId with
  | none => rfl
  | some requested => rw [h.replayEvents requested, drop_nil]

/-- What is written before the replay. -/
def resetLines (reset : Bool) : List (Line ν) := if reset then [.reset] else []

theorem cursor_resetLines (reset : Bool) :
    cursor base (resetLines reset : List (Line ν)) = (base, reset) := by
  cases reset <;> rfl

theorem eventsOf_resetLines (reset : Bool) : eventsOf (resetLines reset : List (Line ν)) = [] := by
  cases reset <;> rfl

/-- **The initial lines of a subscription are faithful, and know where its queue begins.** -/
theorem faithful_initialLines
    (lastEventId : Option ℤ) (subscriberId : ℕ) (h : Replays limit log buffer) (hlimit : 0 < limit)
    (hboundary : ∀ event ∈ log, event.serverEventBoundary = boundary) :
    let selection := selectReplay lastEventId buffer
    let lines := initialLines boundary
      ⟨selection.replayEvents, selection.replayResetRequired, selection.replayLatestEventId,
        subscriberId⟩
    Faithful log (lastEventId.getD log.length) lines ∧
      Ready selection.replayResetRequired (lastEventId.getD log.length) lines log.length
        (lastDeliveredId selection.replayLatestEventId selection.replayEvents) := by
  intro selection lines
  have hn := h.numbered
  by_cases hne : log = []
  · -- nothing was appended yet: there is nothing to replay and nothing to compare with
    have hnil : selection.replayEvents = [] := replayEvents_of_nil (hne ▸ h) lastEventId
    have hlatest : selection.replayLatestEventId = none := (h.latest hlimit).trans (if_pos hne)
    have hlines : lines = resetLines selection.replayResetRequired ++ [.connected] := by
      simp only [lines, initialLines, hnil, resetLines, filter_nil, map_nil,
        nil_append]
    have hevents : eventsOf lines = [] := by
      rw [hlines, eventsOf_append, eventsOf_resetLines]
      rfl
    have hsaid : NoSilentSkip log (lastEventId.getD log.length) lines := by
      rintro before event after - ⟨skipped, hskipped, -⟩
      rw [hne] at hskipped
      cases hskipped
    have hprev : lastDeliveredId selection.replayLatestEventId selection.replayEvents = none := by
      rw [hnil, hlatest]
      rfl
    rw [hprev]
    refine ⟨⟨?_, ?_, hsaid⟩, hevents, fun _ => by rw [hne]; rfl, fun hreset => ?_⟩
    · intro event hmem
      rw [hevents] at hmem
      cases hmem
    · rw [hevents]
      exact List.Pairwise.nil
    · rw [hlines, cursor_concat_connected, cursor_resetLines]
      exact hreset
  · obtain ⟨k, hreplay, hbegin, hend⟩ := exists_replayEvents_eq_drop h hlimit hne lastEventId
    have hreplay' : selection.replayEvents = log.drop k := hreplay
    have hfilter : (log.drop k).filter (fun event => event.serverEventBoundary = boundary)
        = log.drop k := by
      rw [filter_eq_self]
      intro event hmem
      exact decide_eq_true (hboundary event (mem_of_mem_drop hmem))
    have hlines : lines =
        (resetLines selection.replayResetRequired ++ (log.drop k).map .event) ++ [.connected] := by
      simp only [lines, initialLines, hreplay', hfilter, resetLines, append_assoc]
    have hevents : eventsOf lines = log.drop k := by
      rw [hlines, eventsOf_append, eventsOf_append, eventsOf_resetLines, eventsOf_map_event]
      exact List.append_nil _
    have hsaid : NoSilentSkip log (lastEventId.getD log.length) lines := by
      rw [hlines]
      refine NoSilentSkip.concat_quiet (NoSilentSkip.append_drop hn ?_ ?_) (by simp)
      · cases selection.replayResetRequired with
        | false => exact .nil
        | true => exact NoSilentSkip.nil.concat_quiet (by simp)
      · rw [cursor_resetLines]
        cases hreset : selection.replayResetRequired with
        | false => exact .inr (hbegin hreset)
        | true => exact .inl rfl
    have hprev : lastDeliveredId selection.replayLatestEventId selection.replayEvents
        = some (log.length : ℤ) := by
      have hlatest : selection.replayLatestEventId = some (log.length : ℤ) :=
        (h.latest hlimit).trans (if_neg hne)
      rw [lastDeliveredId, hreplay', hlatest, List.getLast?_drop]
      split
      · next last hlast =>
        split at hlast
        · cases hlast
        · rw [hn.getLast hlast]
      · rfl
    rw [hprev]
    refine ⟨⟨?_, ?_, hsaid⟩, le_refl _, ?_, ?_⟩
    · intro event hmem
      rw [hevents] at hmem
      exact mem_of_mem_drop hmem
    · rw [hevents]
      exact hn.pairwise_drop k
    · rw [hlines, cursor_concat_connected]
      by_cases hk : k < log.length
      · rw [cursor_append_drop hn hk]
      · rw [drop_eq_nil_of_le (Nat.le_of_not_lt hk), map_nil, List.append_nil,
          cursor_resetLines]
        exact hend (Nat.le_of_not_lt hk)
    · intro event hmem
      rw [hevents] at hmem
      exact (hn.of_mem (mem_of_mem_drop hmem)).2

theorem subscribe_invariant
    {lastEventId : Option ℤ} (hlimit : 0 < config.supervisorEventReplayLimit)
    (hI : EventInvariant config.supervisorEventReplayLimit w)
    (hst : w.step config (.subscribe boundary lastEventId) = some w') :
    EventInvariant config.supervisorEventReplayLimit w' := by
  simp only [EventWorld.step, subscribeEvents] at hst
  split at hst
  · next hlimit' =>
    split at hlimit'
    · cases hst
      exact hI
    · split at hlimit'
      · cases hst
        exact hI
      · cases hlimit'
  · next hok =>
    split at hok
    · cases hok
    · split at hok
      · cases hok
      · cases hok
        cases hst
        obtain ⟨hf, hr⟩ := faithful_initialLines lastEventId w.state.stateNextSubscriberId
          (hI.buffers boundary) hlimit (hI.boundaries boundary)
        refine hI.update rfl (Nat.le_succ _) (Nat.lt_succ_self _) ?_ hf fun subscriber hsub => ?_
        · intro j hne
          exact lookup_insert_of_ne hne
        · simp only [lookup_insert_self, some.injEq] at hsub
          subst hsub
          exact ⟨rfl, _, le_refl _, (drop_eq_nil_of_le (le_refl _)).symm, hr⟩

/-- **The invariant is kept by every step that keeps first events.** -/
theorem eventStep_invariant {event : StreamEvent ν}
    (hlimit : 0 < config.supervisorEventReplayLimit)
    (hI : EventInvariant config.supervisorEventReplayLimit w)
    (hkeeps : KeepsFirstEvents config w event) (hst : w.step config event = some w') :
    EventInvariant config.supervisorEventReplayLimit w' := by
  cases event with
  | publish now boundary eventType turnId sessionId value =>
    exact publish_invariant hlimit hI hkeeps hst
  | subscribe boundary lastEventId => exact subscribe_invariant hlimit hI hst
  | write i outcome =>
    obtain ⟨stream, hs, hst⟩ := bind_eq_some_iff.mp hst
    split at hst
    · next line lines previousId hphase =>
      cases hst
      exact write_invariant hI hs hphase
    · cases hst
  | read i =>
    obtain ⟨stream, hs, hst⟩ := bind_eq_some_iff.mp hst
    obtain ⟨subscriber, hsub, hst⟩ := bind_eq_some_iff.mp hst
    split at hst
    · next previousId event rest hphase hq =>
      cases hst
      exact read_invariant hI hs hsub hphase hq
    · cases hst
  | timeout i =>
    obtain ⟨stream, hs, hst⟩ := bind_eq_some_iff.mp hst
    split at hst
    · next previousId hphase =>
      cases hst
      exact timeout_invariant hI hs hphase
    · cases hst
  | loseRead i =>
    obtain ⟨stream, hs, hst⟩ := bind_eq_some_iff.mp hst
    obtain ⟨subscriber, hsub, hst⟩ := bind_eq_some_iff.mp hst
    split at hst
    · next previousId event rest hphase hq =>
      cases hst
      exact loseRead_invariant hI hs hsub hphase hq (hkeeps stream hs)
    · cases hst
  | close i =>
    obtain ⟨stream, hs, hst⟩ := bind_eq_some_iff.mp hst
    split at hst
    · cases hst
      exact close_invariant hI
    · cases hst

theorem event_invariant (config : ValidConfig)
    (h : ReachableBy (EventWorld.step config.toSupervisorConfig)
      (KeepsFirstEvents config.toSupervisorConfig) .init w) :
    EventInvariant config.supervisorEventReplayLimit w :=
  h.invariant (init_eventInvariant _) fun _ _ _ hI hok hst =>
    eventStep_invariant config.limits.2.2 hI hok hst

/-! ### The claims about runs -/

/-- **While nothing is lost before the first event of a stream, streams have no silent gap**: what
is written are events of the client's boundary in ascending order, with a reset before the next one
wherever events after the client's last one are skipped; and a replay without a reset is complete. -/
theorem streams_have_no_silent_gap (config : ValidConfig)
    (h : ReachableBy (EventWorld.step config.toSupervisorConfig)
      (KeepsFirstEvents config.toSupervisorConfig) .init w) :
    (∀ i stream, w.streams.lookup i = some stream →
      (∀ event ∈ eventsOf stream.written, event.serverEventBoundary = stream.boundary ∧
        event ∈ w.appended stream.boundary) ∧
      ((eventsOf stream.written).Pairwise fun a b => a.serverEventId < b.serverEventId) ∧
      NoSilentSkip (w.appended stream.boundary) stream.base stream.written) ∧
    ∀ boundary requested,
      (selectReplay (some requested) (w.state.stateEvents boundary)).replayResetRequired = false →
      (selectReplay (some requested) (w.state.stateEvents boundary)).replayEvents =
        (w.appended boundary).filter fun event => decide (requested < event.serverEventId) := by
  have hI := event_invariant config h
  refine ⟨fun i stream hs => ?_, fun boundary requested hreset => ?_⟩
  · have hf : Faithful (w.appended stream.boundary) stream.base stream.written := by
      have hplanned := hI.streams i stream hs
      unfold EventStream.planned at hplanned
      split at hplanned
      · exact hplanned.of_append
      · exact hplanned
      · exact hplanned
    refine ⟨fun event hmem => ?_, hf.ascending, hf.said⟩
    have hlog := hf.events event hmem
    exact ⟨hI.boundaries stream.boundary event hlog, hlog⟩
  · exact selectReplay_eq_filter (hI.buffers boundary) config.limits.2.2 hreset

/-- Limits that keep one event. -/
def smallConfig : ValidConfig where
  supervisorMaxConcurrentTurns := 1
  supervisorMaxConcurrentTurnsPerTenant := 1
  supervisorMaxQueuedTurns := 1
  supervisorMaxQueuedTurnsPerTenant := 1
  supervisorMaxEventSubscribers := 1
  supervisorMaxEventSubscribersPerTenant := 1
  supervisorEventReplayLimit := 1
  accepted := rfl

def exampleBoundary : AccessBoundary := ⟨['t'], none⟩

def examplePublish : StreamEvent ℕ := .publish 0 exampleBoundary ['e'] none none 0

/-- A stream that began with an event before it overflows, and tells the client. -/
def overflowRun : List (StreamEvent ℕ) :=
  [examplePublish, .subscribe exampleBoundary none, .write 1 .written, examplePublish,
    examplePublish, .read 1, .write 1 .written, .write 1 .written]

theorem streams_have_no_silent_gap_in_overflowRun :
    ∃ w : EventWorld ℕ, ReachableBy (EventWorld.step smallConfig.toSupervisorConfig)
        (KeepsFirstEvents smallConfig.toSupervisorConfig) .init w ∧
      ∃ stream, w.streams.lookup 1 = some stream ∧ (eventsOf stream.written).length = 1 ∧
        NoSilentSkip (w.appended stream.boundary) stream.base stream.written := by
  have hrun : (Machine.run (guarded (KeepsFirstEvents smallConfig.toSupervisorConfig)
      (EventWorld.step smallConfig.toSupervisorConfig)) .init overflowRun).any
        (fun w : EventWorld ℕ =>
          (w.streams.lookup 1).any fun stream => (eventsOf stream.written).length == 1)
          = true := by
    decide +kernel
  obtain ⟨w, hw, htest⟩ := exists_reachableBy_of_run hrun
  obtain ⟨stream, hs, hlen⟩ := (Option.any_eq_true _ _).mp htest
  have hclaim := (streams_have_no_silent_gap smallConfig hw).1 1 stream hs
  exact ⟨w, hw, stream, hs, beq_iff_eq.mp hlen, hclaim.2.2⟩

/-- A stream that began before the first event of its boundary overflows before it reads. -/
def silentRun : List (StreamEvent ℕ) :=
  [.subscribe exampleBoundary none, .write 1 .written, examplePublish, examplePublish, .read 1,
    .write 1 .written]

/-- The client is connected and gets event 2, and event 1 was appended. -/
def skippedFirst (log : List (ServerEvent ℕ)) : List (Line ℕ) → Bool
  | [.connected, .event event] =>
    event.serverEventId == 2 && log.any fun skipped => skipped.serverEventId == 1
  | _ => false

theorem skippedFirst_eq_true {log : List (ServerEvent ℕ)} {lines : List (Line ℕ)}
    (h : skippedFirst log lines = true) :
    ∃ event, lines = [.connected, .event event] ∧ event.serverEventId = 2 ∧
      ∃ skipped ∈ log, skipped.serverEventId = 1 := by
  unfold skippedFirst at h
  split at h
  · simp only [Bool.and_eq_true, beq_iff_eq, List.any_eq_true] at h
    exact ⟨_, rfl, h⟩
  · cases h

/-- **The first event is skipped silently**: the client gets the second one, and no reset. -/
theorem stream_skips_silently_in_silentRun :
    ∃ w : EventWorld ℕ, Reachable (EventWorld.step smallConfig.toSupervisorConfig)
        .init w ∧
      ∃ stream, w.streams.lookup 1 = some stream ∧
        ¬ NoSilentSkip (w.appended stream.boundary) stream.base stream.written := by
  have hrun : (Machine.run (EventWorld.step smallConfig.toSupervisorConfig) .init silentRun).any
        (fun w : EventWorld ℕ => (w.streams.lookup 1).any fun stream => stream.base == 0 &&
          skippedFirst (w.appended stream.boundary) stream.written) = true := by
    decide +kernel
  obtain ⟨w, hw, htest⟩ := exists_reachable_of_run hrun
  obtain ⟨stream, hs, htest⟩ := (Option.any_eq_true _ _).mp htest
  refine ⟨w, hw, stream, hs, fun hsaid => ?_⟩
  rw [Bool.and_eq_true, beq_iff_eq] at htest
  obtain ⟨hbase, htest⟩ := htest
  obtain ⟨event, hwritten, hid, skipped, hskipped, hone⟩ := skippedFirst_eq_true htest
  have hreset := hsaid [.connected] event [] hwritten
    ⟨skipped, hskipped, by rw [hbase, hone]; decide, by rw [hone, hid]; decide⟩
  cases hreset

end Server

end HaskellAgent
