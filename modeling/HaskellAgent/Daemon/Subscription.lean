import HaskellAgent.Daemon.JournalOpening
import HaskellAgent.Lib.Machine

/-!
# Subscribers of the journal

A client that connects gets the events after its cursor, or a snapshot and the events after it.  The
replay and the place in the journal are taken together, and every later event is offered to the
queue of the client in the same transaction.
-/

open List Option FinMap

namespace HaskellAgent.Daemon

open HaskellAgent.Wire CutProgram

variable {library : DaemonLibrary} {config : JournalConfig}

/-! ### Numbers that follow each other -/

/-- The numbers of the events follow each other up to the last one. -/
def Contiguous (events : List EventEnvelope) (last : ℕ) : Prop :=
  ∃ first, 1 ≤ first ∧ first + events.length = last + 1 ∧
    events.map (·.sequenceNumber) = List.range' first events.length

section Contiguous

variable {events kept : List EventEnvelope} {event : EventEnvelope} {last : ℕ}

theorem Contiguous.nil (last : ℕ) : Contiguous [] last :=
  ⟨last + 1, by omega, by simp, rfl⟩

section

variable (h : Contiguous events last)
include h

theorem Contiguous.append (hevent : event.sequenceNumber = last + 1) :
    Contiguous (events ++ [event]) (last + 1) := by
  obtain ⟨first, hpos, hlength, hnumbers⟩ := h
  refine ⟨first, hpos, by simp; omega, ?_⟩
  rw [map_append, hnumbers, length_append, length_singleton, range'_1_concat]
  simp only [map_cons, map_nil, hevent]
  congr 2
  omega

theorem Contiguous.suffix (hsuffix : kept <:+ events) :
    Contiguous kept last := by
  obtain ⟨first, hpos, hlength, hnumbers⟩ := h
  obtain ⟨dropped, rfl⟩ := hsuffix
  rw [map_append, length_append] at hnumbers
  rw [length_append] at hlength
  refine ⟨first + dropped.length, by omega, by omega, ?_⟩
  have hdrop := congrArg (List.drop dropped.length) hnumbers
  rw [drop_left' (by simp), drop_range', Nat.mul_one,
    Nat.add_sub_cancel_left] at hdrop
  exact hdrop

/-- The number of an event is at most the last one. -/
theorem Contiguous.le (hmem : event ∈ events) :
    1 ≤ event.sequenceNumber ∧ event.sequenceNumber ≤ last := by
  obtain ⟨first, hpos, hlength, hnumbers⟩ := h
  have hin := List.mem_map_of_mem (f := (·.sequenceNumber)) hmem
  rw [hnumbers, mem_range'_1] at hin
  omega

/-- Numbers up to the last one are missing only before the first event. -/
theorem Contiguous.exists_mem_iff {n : ℕ} :
    (∃ event ∈ events, event.sequenceNumber = n) ↔ n ≤ last ∧ last < n + events.length := by
  obtain ⟨first, hpos, hlength, hnumbers⟩ := h
  have hin : (∃ event ∈ events, event.sequenceNumber = n) ↔
      n ∈ events.map (·.sequenceNumber) := by simp
  rw [hin, hnumbers, mem_range'_1]
  omega

end

theorem Contiguous.head (h : Contiguous (event :: events) last) :
    event.sequenceNumber + events.length = last := by
  obtain ⟨first, hpos, hlength, hnumbers⟩ := h
  rw [map_cons, length_cons, range'_succ] at hnumbers
  rw [length_cons] at hlength
  have hfirst := (List.cons.inj hnumbers).1
  omega

theorem Contiguous.pairwise (h : Contiguous events last) :
    events.Pairwise fun a b => a.sequenceNumber < b.sequenceNumber := by
  obtain ⟨first, -, -, hnumbers⟩ := h
  have hsorted : (events.map (·.sequenceNumber)).Pairwise (· < ·) := by
    rw [hnumbers]
    exact pairwise_lt_range'
  exact pairwise_map.mp hsorted

end Contiguous

/-! ### The numbers of a journal -/

def Journal.Numbered (journal : Journal) : Prop :=
  Contiguous journal.state.retainedEvents journal.state.durableSnapshot.lastSequence

theorem returns_true {α : Type} (p : Program α) : p.Returns fun _ => True := by
  induction p with
  | done a => trivial
  | perform operation next ih => exact ih

/-- Retention keeps the snapshot and drops events from the beginning. -/
theorem returns_enforceRetention (state : JournalState) :
    (enforceRetention library config state).Returns fun result =>
      ∀ compacted, result = .ok compacted → compacted.durableSnapshot = state.durableSnapshot ∧
        compacted.retainedEvents <:+ state.retainedEvents := by
  refine (returns_true _).bind fun journalBytes _ => ?_
  rcases ensureLastFits library config state.retainedEvents with err | u
  · intro compacted heq
    cases heq
  · dsimp only
    split
    · refine (returns_true _).bind fun written _ => ?_
      rcases written with err | u
      · intro compacted heq
        cases heq
      · refine (returns_true _).bind fun rewritten _ => ?_
        rcases rewritten with err | u
        · intro compacted heq
          cases heq
        · intro compacted heq
          cases heq
          exact ⟨rfl, boundEvents_suffix _⟩
    · intro compacted heq
      cases heq
      exact ⟨rfl, suffix_rfl⟩

/-- What a call that stores an event makes of the journal. -/
structure Stored (config : JournalConfig) (journal journal' : Journal) (event : EventEnvelope) :
    Prop where
  number : event.sequenceNumber = journal.state.durableSnapshot.lastSequence + 1
  last : journal'.state.durableSnapshot.lastSequence = event.sequenceNumber
  retained : journal'.state.retainedEvents <:+ journal.state.retainedEvents ++ [event]
  subscribers : journal'.subscribers = journal.subscribers.map (·.offer config event)
  nextSubscriber : journal'.nextSubscriber = journal.nextSubscriber

/-- A call stores an event and publishes it, or fails and leaves the state as it was. -/
def CallResult (config : JournalConfig) (journal : Journal)
    (result : Journal × Except JournalError EventEnvelope) : Prop :=
  match result with
  | (journal', .ok event) => Stored config journal journal' event
  | (journal', .error _) => journal'.state = journal.state ∧
    journal'.subscribers = journal.subscribers ∧ journal'.nextSubscriber = journal.nextSubscriber

variable {events : List EventEnvelope} {journal : Journal}

theorem returns_persistOrPoison {event : EventEnvelope}
    {action : Program (Except JournalError JournalState)} (updated : JournalState)
    (hnumber : event.sequenceNumber = journal.state.durableSnapshot.lastSequence + 1)
    (hlast : updated.durableSnapshot.lastSequence = event.sequenceNumber)
    (hretained : updated.retainedEvents = journal.state.retainedEvents ++ [event])
    (haction : action.Returns fun result => ∀ compacted, result = .ok compacted →
      compacted.durableSnapshot = updated.durableSnapshot ∧
        compacted.retainedEvents <:+ updated.retainedEvents) :
    (persistOrPoison config journal event action).Returns (CallResult config journal) := by
  refine haction.bind fun result hresult => ?_
  rcases result with err | compacted
  · exact ⟨rfl, rfl, rfl⟩
  · obtain ⟨hsnapshot, hsuffix⟩ := hresult compacted rfl
    refine ⟨hnumber, ?_, ?_, rfl, rfl⟩
    · change compacted.durableSnapshot.lastSequence = _
      rw [hsnapshot, hlast]
    · rw [hretained] at hsuffix
      exact hsuffix

theorem returns_appendEvent (journal : Journal) (eventType : Text) (payload : Json) :
    (appendEvent library config journal eventType payload).Returns (CallResult config journal) := by
  rcases hprepared : preparedEvent library config journal eventType payload with err | r
  · rw [appendEvent, hprepared]
    exact ⟨rfl, rfl, rfl⟩
  · obtain ⟨-, rfl⟩ := preparedEvent_eq_ok.mp hprepared
    rw [appendEvent, hprepared]
    refine returns_persistOrPoison (otherState library journal eventType payload) rfl rfl rfl
      ((returns_true _).bind fun written _ => ?_)
    rcases written with err | u
    · intro compacted heq
      cases heq
    · exact returns_enforceRetention _

theorem returns_persistTask (journal : Journal) (task : DurableTask) :
    (persistTask library config journal task).Returns (CallResult config journal) := by
  rcases hprepared : preparedTask library config journal task with err | r
  · rw [persistTask, hprepared]
    exact ⟨rfl, rfl, rfl⟩
  · obtain ⟨-, rfl⟩ := preparedTask_eq_ok.mp hprepared
    rw [persistTask, hprepared]
    refine returns_persistOrPoison (taskState library config journal task) rfl rfl rfl
      ((returns_true _).bind fun written _ => ?_)
    rcases written with err | u
    · intro compacted heq
      cases heq
    · refine (returns_true _).bind fun saved _ => ?_
      rcases saved with err | u
      · intro compacted heq
        cases heq
      · exact returns_enforceRetention _

theorem Journal.Numbered.call {journal journal' : Journal}
    {result : Except JournalError EventEnvelope} (h : journal.Numbered)
    (hcall : CallResult config journal (journal', result)) : journal'.Numbered := by
  rcases result with err | event
  · rw [Journal.Numbered, hcall.1]
    exact h
  · have happend : Contiguous (journal.state.retainedEvents ++ [event]) event.sequenceNumber := by
      rw [hcall.number]
      exact h.append hcall.number
    rw [Journal.Numbered, hcall.last]
    exact happend.suffix hcall.retained

/-! ### The numbers after opening -/

theorem numbers_of_validateFrom {previous : ℕ}
    (h : validateFrom previous events = .ok ()) :
    events.map (·.sequenceNumber) = List.range' (previous + 1) events.length := by
  induction events generalizing previous with
  | nil => rfl
  | cons event events ih =>
    obtain ⟨expected, hexpected, h⟩ := bind_eq_ok.mp h
    obtain ⟨-, rfl⟩ := nextSequenceAfter_eq_ok.mp hexpected
    by_cases hnumber : event.sequenceNumber = previous + 1
    · rw [if_pos hnumber] at h
      rw [map_cons, ih h, length_cons, range'_succ, hnumber]
    · rw [if_neg hnumber] at h
      cases h

/-- Events that were validated are numbered up to the last of them. -/
theorem contiguous_of_validate {last : EventEnvelope}
    (h : validateEventSequence events = .ok ()) (hlast : events.getLast? = some last) :
    Contiguous events last.sequenceNumber := by
  cases events with
  | nil => cases hlast
  | cons first rest =>
    rw [validateEventSequence] at h
    by_cases hzero : first.sequenceNumber = 0
    · rw [if_pos hzero] at h
      cases h
    rw [if_neg hzero] at h
    have hnumbers : (first :: rest).map (·.sequenceNumber) =
        List.range' first.sequenceNumber (first :: rest).length := by
      rw [map_cons, numbers_of_validateFrom h, length_cons, range'_succ]
    refine ⟨first.sequenceNumber, by omega, ?_, hnumbers⟩
    have hlastNumber : ((first :: rest).map (·.sequenceNumber)).getLast? =
        some last.sequenceNumber := by
      rw [List.getLast?_map, hlast]
      rfl
    rw [hnumbers, length_cons, range'_1_concat, List.getLast?_concat,
      some.injEq] at hlastNumber
    rw [length_cons]
    omega

theorem sequenceNumber_of_normalise {event event' : EventEnvelope}
    (h : normaliseRecoveredEvent library config event = .ok event') :
    event'.sequenceNumber = event.sequenceNumber := by
  rw [normaliseRecoveredEvent] at h
  split at h
  · cases h
    rfl
  · obtain ⟨task, -, h⟩ := bind_eq_ok.mp h
    cases h
    rfl

theorem map_of_mapM {ε α β γ : Type} {f : α → Except ε β} {g : α → γ} {g' : β → γ}
    (hf : ∀ a b, f a = .ok b → g' b = g a) {l : List α} {l' : List β}
    (h : l.mapM f = .ok l') : l'.map g' = l.map g := by
  induction l generalizing l' with
  | nil =>
    cases h
    rfl
  | cons a l ih =>
    rw [mapM_cons] at h
    obtain ⟨b, hb, h⟩ := bind_eq_ok.mp h
    obtain ⟨bs, hbs, h⟩ := bind_eq_ok.mp h
    cases h
    rw [map_cons, map_cons, hf a b hb, ih hbs]

/-- A snapshot that events follow does not go beyond them. -/
theorem le_of_validateRecoveryOrigin {snapshotExists : Bool} {savedSnapshot : JournalSnapshot}
    {last : EventEnvelope}
    (hmissing : snapshotExists = false → savedSnapshot = emptySnapshot)
    (h : validateRecoveryOrigin snapshotExists savedSnapshot.lastSequence events = .ok ())
    (hcontiguous : Contiguous events last.sequenceNumber) (hlast : events.getLast? = some last) :
    savedSnapshot.lastSequence ≤ last.sequenceNumber := by
  cases snapshotExists with
  | false =>
    rw [hmissing rfl]
    exact Nat.zero_le _
  | true =>
    cases events with
    | nil => cases hlast
    | cons first rest =>
      have hhead := hcontiguous.head
      simp only [validateRecoveryOrigin, List.head?_cons, hlast] at h
      by_cases hbefore : savedSnapshot.lastSequence < first.sequenceNumber
      · omega
      · by_cases hafter : last.sequenceNumber < savedSnapshot.lastSequence
        · simp [hbefore, hafter] at h
        · omega

/-- What is recovered is numbered up to the last number. -/
theorem contiguous_of_recoverState {snapshotExists : Bool} {savedSnapshot : JournalSnapshot}
    {savedEvents : List EventEnvelope} {recovery : Recovery}
    (hmissing : snapshotExists = false → savedSnapshot = emptySnapshot)
    (h : recoverState library config snapshotExists savedSnapshot savedEvents = .ok recovery) :
    Contiguous recovery.initialState.retainedEvents
      recovery.initialState.durableSnapshot.lastSequence := by
  obtain ⟨savedTasks, recovered, hvalid, horigin, hnormalised, htasks, hsnapshot, hfold, -, hlast,
    hretained⟩ := of_recoverState h
  have hnumbers : recovery.normalisedEvents.map (·.sequenceNumber) =
      savedEvents.map (·.sequenceNumber) :=
    map_of_mapM (fun a b hb => sequenceNumber_of_normalise hb) hnormalised
  have hlength : recovery.normalisedEvents.length = savedEvents.length := by
    simpa using congrArg List.length hnumbers
  rw [hretained, hlast]
  rcases hsavedLast : savedEvents.getLast? with _ | last
  · rw [List.getLast?_eq_none_iff] at hsavedLast
    subst hsavedLast
    have hnil : recovery.normalisedEvents = [] := length_eq_zero_iff.mp hlength
    rw [hnil]
    exact Contiguous.nil _
  · have hcontiguous := contiguous_of_validate hvalid hsavedLast
    have hsame : Contiguous recovery.normalisedEvents last.sequenceNumber := by
      obtain ⟨first, hpos, hsum, hrange⟩ := hcontiguous
      exact ⟨first, hpos, hlength ▸ hsum, by rw [hnumbers, hlength]; exact hrange⟩
    have hle := le_of_validateRecoveryOrigin hmissing horigin hcontiguous hsavedLast
    -- the snapshot only gets numbers of events
    have hrecovered : recovered.lastSequence ≤ last.sequenceNumber := by
      refine foldlM_invariant (P := fun saved => saved.lastSequence ≤ last.sequenceNumber)
        (fun saved event hmem saved' hsaved hstep => ?_) hfold (by rw [hsnapshot]; exact hle)
      unfold recoverTask at hstep
      split at hstep
      · cases hstep
        exact hsaved
      · split at hstep
        · cases hstep
          exact hsaved
        · obtain ⟨task, -, hstep⟩ := bind_eq_ok.mp hstep
          obtain ⟨tasks, -, hstep⟩ := bind_eq_ok.mp hstep
          cases hstep
          exact (hsame.le hmem).2
    have hlastNumber : (recovery.normalisedEvents.getLast?).elim 0 (·.sequenceNumber) =
        last.sequenceNumber := by
      have hmap := congrArg List.getLast? hnumbers
      rw [List.getLast?_map, List.getLast?_map, hsavedLast] at hmap
      rcases hgot : recovery.normalisedEvents.getLast? with _ | got
      · rw [hgot] at hmap
        cases hmap
      · rw [hgot] at hmap
        exact some.inj hmap
    rw [hlastNumber, Nat.max_eq_right hrecovered]
    exact hsame

theorem returns_readSnapshot :
    (readSnapshot library config).Returns fun result => ∀ snapshotExists saved,
      result = .ok (snapshotExists, saved) → snapshotExists = false → saved = emptySnapshot := by
  refine (returns_true _).bind fun result _ => ?_
  rcases result with err | bytes
  · intro snapshotExists saved heq
    cases heq
  · cases bytes with
    | none =>
      intro snapshotExists saved heq _
      cases heq
      rfl
    | some bytes =>
      dsimp only
      split
      · intro snapshotExists saved heq
        cases heq
      · intro snapshotExists saved heq hexists
        cases heq
        cases hexists

/-- A journal without subscribers. -/
def Journal.Fresh (journal : Journal) : Prop :=
  journal.Numbered ∧ journal.subscribers = FinMap.empty ∧ journal.nextSubscriber = 0

theorem returns_persistTasks (h : journal.Fresh) (tasks : List DurableTask) :
    (persistTasks library config journal tasks).Returns fun result =>
      ∀ journal', result = .ok journal' → journal'.Fresh := by
  induction tasks generalizing journal with
  | nil =>
    intro journal' heq
    cases heq
    exact h
  | cons task tasks ih =>
    refine (returns_persistTask journal task).bind fun result hresult => ?_
    obtain ⟨journal', err | event⟩ := result
    · intro journal'' heq
      cases heq
    · refine ih ⟨h.1.call hresult, ?_, ?_⟩
      · rw [hresult.subscribers, h.2.1]
        exact FinMap.ext fun k => rfl
      · rw [hresult.nextSubscriber, h.2.2]

/-- **The events of a journal that was opened end with the last number.** -/
theorem openJournal_fresh {now : UTCTime} {endings : List Ending} {disk disk' : Disk}
    (h : (openJournal library config now).run fileSystem endings disk =
      (disk', some (.ok journal))) : journal.Fresh := by
  have hreturns : (openJournal library config now).Returns fun result =>
      ∀ journal, result = .ok journal → journal.Fresh := by
    refine returns_readSnapshot.bind fun result hread => ?_
    rcases result with err | ⟨snapshotExists, savedSnapshot⟩
    · intro journal heq
      cases heq
    refine (returns_true _).bind fun result _ => ?_
    rcases result with err | savedEvents
    · intro journal heq
      cases heq
    dsimp only
    rcases hrecover : recoverState library config snapshotExists savedSnapshot savedEvents with
      err | recovery
    · intro journal heq
      cases heq
    dsimp only
    refine (returns_true _).bind fun result _ => ?_
    rcases result with err | u
    · intro journal heq
      cases heq
    refine (returns_true _).bind fun result _ => ?_
    rcases result with err | u
    · intro journal heq
      cases heq
    refine (returns_enforceRetention _).bind fun result hretention => ?_
    rcases result with err | compacted
    · intro journal heq
      cases heq
    obtain ⟨hsnapshot, hsuffix⟩ := hretention compacted rfl
    refine returns_persistTasks ⟨?_, rfl, rfl⟩ _
    change Contiguous compacted.retainedEvents compacted.durableSnapshot.lastSequence
    rw [hsnapshot]
    exact (contiguous_of_recoverState (hread _ _ rfl) hrecover).suffix hsuffix
  exact hreturns.run h journal rfl

/-! ### Connections -/

/-- What a client is sent; a snapshot or an event may take several frames. -/
inductive ServerItem
  | welcome (currentSequence : ℕ)
  | snapshot (saved : JournalSnapshot)
  | event (event : EventEnvelope)
  | commandResult (commandId : Text)
  | heartbeat (latest : ℕ)
deriving DecidableEq

/-- A client, the state of the journal when it subscribed, and what it is sent first.  The sender
holds at most one message; `missed` is the number of the first event that did not fit the queue. -/
structure Connection where
  resumeAfter : Option ℕ
  startedFrom : JournalState
  replay : Replay
  toSend : List ServerItem
  taken : Option ServerItem
  sent : List ServerItem
  outbound : List Text
  latestSequence : ℕ
  missed : Option ℕ
  closed : Bool
deriving DecidableEq

def replayItems : Replay → List ServerItem
  | .snapshot saved => [.snapshot saved]
  | .events events => events.map .event

/-- A client before anything was sent: a welcome and the replay come first. -/
def newConnection (resumeAfter : Option ℕ) (startedFrom : JournalState) (replay : Replay) :
    Connection where
  resumeAfter := resumeAfter
  startedFrom := startedFrom
  replay := replay
  toSend := .welcome startedFrom.durableSnapshot.lastSequence :: replayItems replay
  taken := none
  sent := []
  outbound := []
  latestSequence := startedFrom.durableSnapshot.lastSequence
  missed := none
  closed := false

/-- A client is subscribed, and is sent the snapshot where it has no cursor. -/
def serveNegotiated (journal : Journal) (resumeAfter : Option ℕ) :
    Except JournalError (Journal × ℕ × Connection) := do
  let ((currentSnapshot, resumableReplay), journal, subscriberId) ←
    subscribeReplay journal (resumeAfter.getD 0)
  let replay :=
    match resumeAfter with
    | none => .snapshot currentSnapshot
    | some _ => resumableReplay
  pure (journal, subscriberId, newConnection resumeAfter journal.state replay)

/-- One turn of the sender: it ends the connection, or takes a message, or waits. -/
def Connection.takeNext (connection : Connection) (subscription : Subscription) (expired : Bool) :
    Option (Connection × Subscription) :=
  if subscription.overflowed = true then some ({ connection with closed := true }, subscription)
  else
    match connection.outbound with
    | commandId :: rest =>
      some ({ connection with taken := some (.commandResult commandId), outbound := rest },
        subscription)
    | [] =>
      match subscription.events with
      | event :: rest =>
        some ({ connection with
            taken := some (.event event), latestSequence := event.sequenceNumber },
          { subscription with events := rest })
      | [] =>
        if expired = true then
          some ({ connection with taken := some (.heartbeat connection.latestSequence) },
            subscription)
        else none

/-- The journal with its files, the clients by the number of their subscription, and the events that
were stored since the journal was opened, after those it had then. -/
structure ServerWorld where
  journal : Journal
  disk : Disk
  connections : FinMap ℕ Connection
  history : List EventEnvelope

inductive ServerEvent
  | appendEvent (eventType : Text) (payload : Json) (endings : List Ending)
  | persistTask (task : DurableTask) (endings : List Ending)
  | connect (resumeAfter : Option ℕ)
  | send (client : ℕ)
  | takeNext (client : ℕ) (expired : Bool)
  | deliver (client : ℕ)
  | commandResult (client : ℕ) (commandId : Text)
  | close (client : ℕ)

/-- The event did not fit the queue, and those before it did. -/
def Connection.observe (connection : Connection) (event : EventEnvelope)
    (before after : Option Subscription) : Connection :=
  if before.any (fun s => !s.overflowed) && after.any (·.overflowed) then
    { connection with missed := some event.sequenceNumber }
  else connection

/-- A call of the journal has ended. -/
def ServerWorld.afterCall (w : ServerWorld) :
    Disk × Option (Journal × Except JournalError EventEnvelope) → Option ServerWorld
  | (_, none) => none
  | (disk, some (journal, .error _)) => some { w with journal, disk }
  | (disk, some (journal, .ok event)) =>
    some
      { journal, disk
        connections := w.connections.mapWithKey fun client connection =>
          connection.observe event (w.journal.subscribers.lookup client)
            (journal.subscribers.lookup client)
        history := w.history ++ [event] }

def ServerWorld.closeClient (w : ServerWorld) (client : ℕ) (connection : Connection) :
    ServerWorld :=
  { w with
    journal := unsubscribe w.journal client
    connections := w.connections.insert client { connection with closed := true } }

section Server

variable (library config)

def serverStep (w : ServerWorld) : ServerEvent → Option ServerWorld
  | .appendEvent eventType payload endings =>
    w.afterCall
      ((appendEvent library config w.journal eventType payload).run fileSystem endings w.disk)
  | .persistTask task endings =>
    w.afterCall ((persistTask library config w.journal task).run fileSystem endings w.disk)
  | .connect resumeAfter =>
    match serveNegotiated w.journal resumeAfter with
    | .error _ => none
    | .ok (journal, client, connection) =>
      some { w with journal, connections := w.connections.insert client connection }
  | .send client =>
    match w.connections.lookup client with
    | none => none
    | some connection =>
      match connection.closed, connection.toSend with
      | false, item :: rest =>
        some { w with
          connections := w.connections.insert client
            { connection with sent := connection.sent ++ [item], toSend := rest } }
      | _, _ => none
  | .takeNext client expired =>
    match w.connections.lookup client, w.journal.subscribers.lookup client with
    | some connection, some subscription =>
      match connection.closed, connection.toSend, connection.taken with
      | false, [], none =>
        match connection.takeNext subscription expired with
        | none => none
        | some (connection, subscription) =>
          if connection.closed = true then some (w.closeClient client connection)
          else
            some { w with
              journal := { w.journal with
                subscribers := w.journal.subscribers.insert client subscription }
              connections := w.connections.insert client connection }
      | _, _, _ => none
    | _, _ => none
  | .deliver client =>
    match w.connections.lookup client with
    | none => none
    | some connection =>
      match connection.closed, connection.taken with
      | false, some item =>
        some { w with
          connections := w.connections.insert client
            { connection with sent := connection.sent ++ [item], taken := none } }
      | _, _ => none
  | .commandResult client commandId =>
    match w.connections.lookup client with
    | none => none
    | some connection =>
      match connection.closed, connection.toSend with
      | false, [] =>
        some { w with
          connections := w.connections.insert client
            { connection with outbound := connection.outbound ++ [commandId] } }
      | _, _ => none
  | .close client =>
    match w.connections.lookup client with
    | none => none
    | some connection => some (w.closeClient client connection)

end Server

/-- The server of a journal that was opened. -/
def listen (journal : Journal) (disk : Disk) : ServerWorld :=
  { journal, disk, connections := FinMap.empty, history := journal.state.retainedEvents }

/-! ### What a client should be sent -/

def ServerItem.isContent : ServerItem → Bool
  | .snapshot _ => true
  | .event _ => true
  | _ => false

/-- Snapshots and events. -/
def content (items : List ServerItem) : List ServerItem := items.filter (·.isContent)

@[simp] theorem content_append (items items' : List ServerItem) :
    content (items ++ items') = content items ++ content items' :=
  filter_append ..

/-- The number that the client starts after. -/
def Connection.start (connection : Connection) : ℕ :=
  match connection.replay with
  | .snapshot saved => saved.lastSequence
  | .events _ => connection.resumeAfter.getD 0

def Connection.snapshots (connection : Connection) : List ServerItem :=
  match connection.replay with
  | .snapshot saved => [.snapshot saved]
  | .events _ => []

def eventsAfter (start : ℕ) (history : List EventEnvelope) : List EventEnvelope :=
  history.filter fun event => start < event.sequenceNumber

/-- A snapshot, where the client starts from one, and all events after the start. -/
def Connection.expected (connection : Connection) (history : List EventEnvelope) :
    List ServerItem :=
  connection.snapshots ++ (eventsAfter connection.start history).map .event

/-- What was sent, and what is certain to be sent next. -/
def Connection.past (connection : Connection) : List ServerItem :=
  connection.sent ++ connection.toSend ++ connection.taken.toList

/-- The queue continues what the client was sent, or an event is missing that nothing follows. -/
structure Live (connection : Connection) (subscription : Subscription)
    (history : List EventEnvelope) : Prop where
  order : connection.taken = none ∨ connection.toSend = []
  complete : subscription.overflowed = false → connection.missed = none ∧
    content connection.past ++ subscription.events.map .event = connection.expected history
  behind : subscription.overflowed = true → ∃ number, connection.missed = some number ∧
    content connection.past <+: connection.expected history ∧
    ∀ event, .event event ∈ connection.past → event.sequenceNumber < number

/-- What was sent is the beginning of what the client should be sent. -/
structure SentWell (connection : Connection) (history : List EventEnvelope) : Prop where
  sent : content connection.sent <+: connection.expected history
  missed : ∀ number, connection.missed = some number → ∀ event, .event event ∈ connection.sent →
    event.sequenceNumber < number

/-- How the client was started. -/
structure Started (connection : Connection) : Prop where
  saved : ∀ saved, connection.replay = .snapshot saved →
    saved = connection.startedFrom.durableSnapshot
  fresh : connection.resumeAfter = none →
    connection.replay = .snapshot connection.startedFrom.durableSnapshot
  resumed : ∀ cursor, connection.resumeAfter = some cursor →
    (connection.replay = .snapshot connection.startedFrom.durableSnapshot ↔
      connection.startedFrom.durableSnapshot.lastSequence < cursor ∨
      cursor < connection.startedFrom.durableSnapshot.lastSequence ∧
        ∀ event ∈ connection.startedFrom.retainedEvents, event.sequenceNumber ≠ cursor + 1)

/-- A connection goes on as it started. -/
def SameStart (old connection : Connection) : Prop :=
  connection.replay = old.replay ∧ connection.startedFrom = old.startedFrom ∧
    connection.resumeAfter = old.resumeAfter

theorem Started.congr {old connection : Connection} (h : Started old)
    (hsame : SameStart old connection) : connection.start = old.start ∧ Started connection := by
  obtain ⟨hreplay, hfrom, hresume⟩ := hsame
  refine ⟨by rw [Connection.start, Connection.start, hreplay, hresume], ?_, ?_, ?_⟩
  · rw [hreplay, hfrom]
    exact h.saved
  · rw [hreplay, hfrom, hresume]
    exact h.fresh
  · rw [hreplay, hfrom, hresume]
    exact h.resumed

theorem sameStart_of_takeNext {old connection : Connection}
    {subscription subscription' : Subscription} {expired : Bool}
    (h : old.takeNext subscription expired = some (connection, subscription')) :
    SameStart old connection := by
  rw [Connection.takeNext] at h
  split at h
  · cases h
    exact ⟨rfl, rfl, rfl⟩
  split at h
  · cases h
    exact ⟨rfl, rfl, rfl⟩
  split at h
  · cases h
    exact ⟨rfl, rfl, rfl⟩
  split at h
  · cases h
    exact ⟨rfl, rfl, rfl⟩
  · cases h

section Sending

variable {connection : Connection} {subscription : Subscription} {history : List EventEnvelope}
  {event : EventEnvelope} {last : ℕ}

theorem event_mem_expected :
    .event event ∈ connection.expected history ↔
      event ∈ history ∧ connection.start < event.sequenceNumber := by
  have hsnapshots : ServerItem.event event ∉ connection.snapshots := by
    unfold Connection.snapshots
    split <;> simp
  rw [Connection.expected, mem_append, List.mem_map]
  simp [hsnapshots, eventsAfter]

theorem expected_append (hstart : connection.start < event.sequenceNumber) :
    connection.expected (history ++ [event]) = connection.expected history ++ [.event event] := by
  simp [Connection.expected, eventsAfter, hstart]

theorem content_event_mem {items : List ServerItem} (h : .event event ∈ items) :
    .event event ∈ content items :=
  mem_filter.mpr ⟨h, rfl⟩

/-- What was sent is part of what was certain to be sent. -/
theorem Live.sentWell (h : Live connection subscription history) : SentWell connection history := by
  have hleads : content connection.sent <+: content connection.past := by
    rw [Connection.past, content_append, content_append, append_assoc]
    exact prefix_append _ _
  have hsub : ∀ item ∈ connection.sent, item ∈ connection.past := by
    intro item hitem
    rw [Connection.past]
    simp [hitem]
  cases hover : subscription.overflowed with
  | false =>
    obtain ⟨hmissed, hexact⟩ := h.complete hover
    refine ⟨hleads.trans (hexact ▸ prefix_append _ _), fun number hnumber => ?_⟩
    rw [hmissed] at hnumber
    cases hnumber
  | true =>
    obtain ⟨number, hmissed, hexact, hless⟩ := h.behind hover
    refine ⟨hleads.trans hexact, fun other hother sent hsent => ?_⟩
    rw [hmissed, some.injEq] at hother
    subst hother
    exact hless sent (hsub _ hsent)

/-- What was sent stays the beginning of what the client should be sent. -/
theorem SentWell.append (h : SentWell connection history)
    (hstart : connection.start < event.sequenceNumber) :
    SentWell connection (history ++ [event]) := by
  refine ⟨?_, h.missed⟩
  rw [expected_append hstart]
  exact h.sent.trans (prefix_append _ _)

section

variable (h : Live connection subscription history)
include h

/-- An event is offered to the queue of a client. -/
theorem Live.offer (hstart : connection.start < event.sequenceNumber)
    (hlast : ∀ old ∈ history, old.sequenceNumber < event.sequenceNumber) :
    Live (connection.observe event (some subscription) (some (subscription.offer config event)))
      (subscription.offer config event) (history ++ [event]) := by
  have hpast : ∀ c : Connection, ∀ number, ({ c with missed := number } : Connection).past = c.past :=
    fun c number => rfl
  have hexpected : ∀ number, ({ connection with missed := number } : Connection).expected
      (history ++ [event]) = connection.expected history ++ [.event event] :=
    fun number => expected_append hstart
  cases hover : subscription.overflowed with
  | false =>
    obtain ⟨hmissed, hexact⟩ := h.complete hover
    by_cases hfull : subscriberCapacity config ≤ subscription.events.length
    · -- the event does not fit: it is the first one that is missing
      have hoffer : subscription.offer config event = { subscription with overflowed := true } :=
        if_pos hfull
      have hobserve : connection.observe event (some subscription)
          (some (subscription.offer config event)) =
          { connection with missed := some event.sequenceNumber } := by
        simp [Connection.observe, hoffer, hover]
      rw [hobserve, hoffer]
      refine ⟨h.order, fun hnot => by simp at hnot, fun _ => ⟨event.sequenceNumber, rfl, ?_, ?_⟩⟩
      · rw [hpast, hexpected, ← hexact, append_assoc]
        exact prefix_append _ _
      · intro old hold
        have hmem : .event old ∈ connection.expected history := by
          rw [← hexact]
          exact mem_append_left _ (content_event_mem hold)
        exact hlast old (event_mem_expected.mp hmem).1
    · have hoffer : subscription.offer config event =
          { subscription with events := subscription.events ++ [event] } := if_neg hfull
      have hobserve : connection.observe event (some subscription)
          (some (subscription.offer config event)) = connection := by
        simp [Connection.observe, hoffer, hover]
      rw [hobserve, hoffer]
      have hexact' : content connection.past ++ (subscription.events ++ [event]).map .event =
          connection.expected (history ++ [event]) := by
        rw [map_append, ← append_assoc, hexact, expected_append hstart]
        rfl
      refine ⟨h.order, fun _ => ⟨hmissed, hexact'⟩, fun hnot => ?_⟩
      · rw [show ({ subscription with events := subscription.events ++ [event] } :
          Subscription).overflowed = subscription.overflowed from rfl, hover] at hnot
        cases hnot
  | true =>
    have hobserve : connection.observe event (some subscription)
        (some (subscription.offer config event)) = connection := by
      simp [Connection.observe, hover]
    obtain ⟨number, hmissed, hexact, hless⟩ := h.behind hover
    have hstays : (subscription.offer config event).overflowed = true := by
      unfold Subscription.offer
      split
      · rfl
      · exact hover
    rw [hobserve]
    have hexact' : content connection.past <+: connection.expected (history ++ [event]) := by
      rw [expected_append hstart]
      exact hexact.trans (prefix_append _ _)
    refine ⟨h.order, fun hnot => ?_, fun _ => ⟨number, hmissed, hexact', hless⟩⟩
    rw [hstays] at hnot
    cases hnot

/-- What is certain to be sent stays the same while messages move on. -/
theorem Live.move {connection' : Connection}
    (horder : connection'.taken = none ∨ connection'.toSend = [])
    (hpast : content connection'.past = content connection.past)
    (hmissed : connection'.missed = connection.missed)
    (hexpected : connection'.expected history = connection.expected history) :
    Live connection' subscription history := by
  refine ⟨horder, fun hover => ?_, fun hover => ?_⟩
  · obtain ⟨hnone, hexact⟩ := h.complete hover
    exact ⟨hmissed.trans hnone, by rw [hpast, hexpected, hexact]⟩
  · obtain ⟨number, hsome, hexact, hless⟩ := h.behind hover
    refine ⟨number, hmissed.trans hsome, by rw [hpast, hexpected]; exact hexact, fun old hold => ?_⟩
    have hmem := content_event_mem hold
    rw [hpast] at hmem
    exact hless old (mem_filter.mp hmem).1

theorem Live.send {item : ServerItem} {rest : List ServerItem}
    (htoSend : connection.toSend = item :: rest) :
    Live { connection with sent := connection.sent ++ [item], toSend := rest } subscription
      history := by
  have hnone : connection.taken = none := h.order.resolve_right (by rw [htoSend]; simp)
  refine h.move (.inl hnone) ?_ rfl rfl
  simp [Connection.past, htoSend]

theorem Live.deliver {item : ServerItem} (htaken : connection.taken = some item) :
    Live { connection with sent := connection.sent ++ [item], taken := none } subscription
      history := by
  have hnil : connection.toSend = [] := h.order.resolve_left (by rw [htaken]; simp)
  refine h.move (.inl rfl) ?_ rfl rfl
  simp [Connection.past, htaken, hnil]

/-- The sender takes nothing where an event is missing, and otherwise the next event. -/
theorem Live.takeNext {connection' : Connection} {subscription' : Subscription} {expired : Bool}
    (htoSend : connection.toSend = [])
    (htaken : connection.taken = none) (hopen : connection.closed = false)
    (htake : connection.takeNext subscription expired = some (connection', subscription')) :
    (connection'.closed = true ↔ subscription.overflowed = true) ∧
      (connection'.closed = true → connection' = { connection with closed := true }) ∧
      (connection'.closed = false → Live connection' subscription' history) := by
  rw [Connection.takeNext] at htake
  cases hover : subscription.overflowed with
  | true =>
    rw [hover, if_pos rfl] at htake
    cases htake
    exact ⟨by simp, fun _ => rfl, fun hnot => by cases hnot⟩
  | false =>
    rw [hover, if_neg (by decide)] at htake
    obtain ⟨hmissed, hexact⟩ := h.complete hover
    cases houtbound : connection.outbound with
    | cons commandId rest =>
      rw [houtbound] at htake
      cases htake
      refine ⟨by simp [hopen], fun hclosed => by simp [hopen] at hclosed, fun _ => ?_⟩
      refine h.move (.inr htoSend) ?_ rfl rfl
      simp [Connection.past, htaken, content, ServerItem.isContent]
    | nil =>
      rw [houtbound] at htake
      cases hevents : subscription.events with
      | cons event rest =>
        rw [hevents] at htake
        cases htake
        refine ⟨by simp [hopen], fun hclosed => by simp [hopen] at hclosed, fun _ => ?_⟩
        refine ⟨.inr htoSend, fun _ => ⟨hmissed, ?_⟩, fun hnot => ?_⟩
        · rw [hevents] at hexact
          change content (connection.sent ++ connection.toSend ++ [.event event]) ++
            rest.map .event = connection.expected history
          rw [← hexact, Connection.past, htaken]
          simp [content, ServerItem.isContent]
        · simp at hnot
      | nil =>
        rw [hevents] at htake
        dsimp only at htake
        split at htake
        · cases htake
          refine ⟨by simp [hopen], fun hclosed => by simp [hopen] at hclosed, fun _ => ?_⟩
          refine h.move (.inr htoSend) ?_ rfl rfl
          simp [Connection.past, htaken, content, ServerItem.isContent]
        · cases htake

end

end Sending

/-! ### How a client is started -/

section Starting

variable {history : List EventEnvelope} {state : JournalState} {cursor : ℕ}

/-- The events that are kept do not reach back to the cursor. -/
theorem replayGap_iff (cursor : ℕ)
    (h : Contiguous state.retainedEvents state.durableSnapshot.lastSequence) :
    replayGap cursor state = true ↔
      cursor + state.retainedEvents.length < state.durableSnapshot.lastSequence := by
  rw [replayGap]
  cases hretained : state.retainedEvents with
  | nil => simp
  | cons first rest =>
    rw [hretained] at h
    have hhead := h.head
    simp only [List.head?_cons, hasGapAfter, Bool.and_eq_true, decide_eq_true_eq, length_cons]
    omega

/-- The events after the cursor are all kept. -/
theorem eventsAfter_retained
    (h : Contiguous history state.durableSnapshot.lastSequence)
    (hsuffix : state.retainedEvents <:+ history)
    (hreaches : state.durableSnapshot.lastSequence ≤ cursor + state.retainedEvents.length) :
    eventsAfter cursor state.retainedEvents = eventsAfter cursor history := by
  obtain ⟨dropped, rfl⟩ := hsuffix
  have hdropped : dropped.filter (fun event => cursor < event.sequenceNumber) = [] := by
    rw [filter_eq_nil_iff]
    intro event hmem
    -- an event that was dropped has its place before those that are kept
    obtain ⟨before, after, rfl⟩ := append_of_mem hmem
    have htail : Contiguous (event :: (after ++ state.retainedEvents))
        state.durableSnapshot.lastSequence := h.suffix ⟨before, by simp⟩
    have hhead := htail.head
    rw [length_append] at hhead
    simp only [decide_eq_true_eq, not_lt]
    omega
  rw [eventsAfter, eventsAfter, filter_append, hdropped, nil_append]

theorem eventsAfter_last (h : Contiguous history state.durableSnapshot.lastSequence) :
    eventsAfter state.durableSnapshot.lastSequence history = [] := by
  rw [eventsAfter, filter_eq_nil_iff]
  intro event hmem
  have hle := (h.le hmem).2
  simpa using hle

/-- What holds of a client between two steps. -/
structure ClientInvariant (journal : Journal) (history : List EventEnvelope) (client : ℕ)
    (connection : Connection) : Prop where
  start_le : connection.start ≤ journal.state.durableSnapshot.lastSequence
  reaches : journal.state.durableSnapshot.lastSequence ≤ connection.start + history.length
  started : Started connection
  sentWell : SentWell connection history
  live : connection.closed = false →
    ∃ subscription, journal.subscribers.lookup client = some subscription ∧
      Live connection subscription history

/-- A client that has just subscribed. -/
theorem clientInvariant_serve {journal journal' : Journal} {resumeAfter : Option ℕ} {client : ℕ}
    {connection : Connection} (hnumbered : journal.Numbered)
    (hhistory : Contiguous history journal.state.durableSnapshot.lastSequence)
    (hsuffix : journal.state.retainedEvents <:+ history)
    (h : serveNegotiated journal resumeAfter = .ok (journal', client, connection)) :
    (journal'.state = journal.state ∧ client = journal.nextSubscriber ∧
        journal'.nextSubscriber = client + 1 ∧
        journal'.subscribers = journal.subscribers.insert client ⟨[], false⟩) ∧
      ClientInvariant journal' history client connection := by
  simp only [serveNegotiated, subscribeReplay, bind_eq_ok] at h
  obtain ⟨_, ⟨_, -, hsubscribed⟩, h⟩ := h
  cases hsubscribed
  cases h
  refine ⟨⟨rfl, rfl, rfl, rfl⟩, ?_⟩
  have hlength := hsuffix.length_le
  -- a client that is sent the snapshot
  have hsnapshot : (newConnection resumeAfter journal.state
        (.snapshot journal.state.durableSnapshot)).start =
        journal.state.durableSnapshot.lastSequence ∧
      Live (newConnection resumeAfter journal.state (.snapshot journal.state.durableSnapshot))
        ⟨[], false⟩ history := by
    refine ⟨rfl, .inl rfl, fun _ => ⟨rfl, ?_⟩, fun hnot => by simp at hnot⟩
    rw [Connection.expected]
    change _ = _ ++ (eventsAfter journal.state.durableSnapshot.lastSequence history).map
      ServerItem.event
    rw [eventsAfter_last hhistory]
    rfl
  cases resumeAfter with
  | none =>
    obtain ⟨hstart, hlive⟩ := hsnapshot
    have hstarted : Started (newConnection none journal.state
        (.snapshot journal.state.durableSnapshot)) := by
      refine ⟨fun saved heq => ?_, fun _ => rfl, fun cursor heq => by cases heq⟩
      cases heq
      rfl
    exact ⟨hstart.le, hstart ▸ Nat.le_add_right _ _, hstarted, hlive.sentWell,
      fun _ => ⟨_, lookup_insert_self, hlive⟩⟩
  | some cursor =>
    have hgap := replayGap_iff cursor hnumbered
    have hkept := hnumbered.exists_mem_iff (n := cursor + 1)
    by_cases hcondition : journal.state.durableSnapshot.lastSequence < cursor ∨
        replayGap cursor journal.state = true
    · have hreplay : replayFromState cursor journal.state =
          .snapshot journal.state.durableSnapshot := if_pos hcondition
      have hnone : ¬ ∃ event ∈ journal.state.retainedEvents, event.sequenceNumber = cursor + 1 := by
        rw [hkept]
        rw [hgap] at hcondition
        omega
      simp only [getD_some, hreplay]
      obtain ⟨hstart, hlive⟩ := hsnapshot
      have hstarted : Started (newConnection (some cursor) journal.state
          (.snapshot journal.state.durableSnapshot)) := by
        refine ⟨fun saved heq => ?_, fun heq => (by cases heq), fun cursor' heq => ?_⟩
        · cases heq
          rfl
        · cases heq
          refine iff_of_true rfl ?_
          rw [hgap] at hcondition
          rcases hcondition with hahead | hbehind
          · exact .inl hahead
          · have hlater : cursor < journal.state.durableSnapshot.lastSequence := by omega
            exact .inr ⟨hlater, fun event hmem heq => hnone ⟨event, hmem, heq⟩⟩
      exact ⟨hstart.le, hstart ▸ Nat.le_add_right _ _, hstarted, hlive.sentWell,
        fun _ => ⟨_, lookup_insert_self, hlive⟩⟩
    · have hreplay : replayFromState cursor journal.state =
          .events (eventsAfter cursor journal.state.retainedEvents) := if_neg hcondition
      rw [hgap, not_or, not_lt, not_lt] at hcondition
      simp only [getD_some, hreplay]
      have hafter := eventsAfter_retained hhistory hsuffix hcondition.2
      have hlive : Live (newConnection (some cursor) journal.state
          (.events (eventsAfter cursor journal.state.retainedEvents))) ⟨[], false⟩ history := by
        refine ⟨.inl rfl, fun _ => ⟨rfl, ?_⟩, fun hnot => by simp at hnot⟩
        have hcontent : content ((eventsAfter cursor history).map .event) =
            (eventsAfter cursor history).map .event := by
          rw [content, filter_eq_self]
          intro item hitem
          obtain ⟨event, -, rfl⟩ := List.mem_map.mp hitem
          rfl
        rw [hafter]
        change content ([] ++ (.welcome _ :: (eventsAfter cursor history).map .event) ++ []) ++ [] =
          [] ++ (eventsAfter cursor history).map .event
        rw [nil_append, List.append_nil, List.append_nil, nil_append]
        exact hcontent
      have hstarted : Started (newConnection (some cursor) journal.state
          (.events (eventsAfter cursor journal.state.retainedEvents))) := by
        refine ⟨fun saved heq => ?_, fun heq => ?_, fun cursor' heq => ?_⟩
        · cases heq
        · cases heq
        · cases heq
          refine iff_of_false (fun heq => by cases heq) ?_
          rintro (hahead | ⟨hbehind, hnone⟩)
          · exact absurd hahead (Nat.not_lt.mpr hcondition.1)
          · have hlater : cursor < journal.state.durableSnapshot.lastSequence := hbehind
            obtain ⟨event, hmem, heq⟩ := hkept.mpr ⟨by omega, by omega⟩
            exact hnone event hmem heq
      exact ⟨hcondition.1, hcondition.2.trans (Nat.add_le_add_left hlength _), hstarted,
        hlive.sentWell, fun _ => ⟨_, lookup_insert_self, hlive⟩⟩

end Starting

/-! ### Runs of the server -/

/-- What holds of the server between two steps. -/
structure ServerInvariant (w : ServerWorld) : Prop where
  numbered : w.journal.Numbered
  history : Contiguous w.history w.journal.state.durableSnapshot.lastSequence
  retained : w.journal.state.retainedEvents <:+ w.history
  fresh : ∀ client, w.journal.nextSubscriber ≤ client → w.connections.lookup client = none
  clients : ∀ client connection, w.connections.lookup client = some connection →
    ClientInvariant w.journal w.history client connection

section Runs

variable {w w' : ServerWorld}

section

variable (h : ServerInvariant w)
include h

variable {connection : Connection} {client : ℕ}

/-- One client is changed, and with it at most its own place in the journal. -/
theorem ServerInvariant.update
    (journal : Journal) (hstate : journal.state = w.journal.state)
    (hnext : w.journal.nextSubscriber ≤ journal.nextSubscriber)
    (hclient : client < journal.nextSubscriber)
    (hothers : ∀ other, other ≠ client →
      journal.subscribers.lookup other = w.journal.subscribers.lookup other)
    (hconnection : ClientInvariant journal w.history client connection) :
    ServerInvariant { w with
      journal, connections := w.connections.insert client connection } where
  numbered := by
    change Contiguous journal.state.retainedEvents journal.state.durableSnapshot.lastSequence
    rw [hstate]
    exact h.numbered
  history := by
    change Contiguous w.history journal.state.durableSnapshot.lastSequence
    rw [hstate]
    exact h.history
  retained := by
    change journal.state.retainedEvents <:+ w.history
    rw [hstate]
    exact h.retained
  fresh other hother := by
    change journal.nextSubscriber ≤ other at hother
    have hne : other ≠ client := by omega
    rw [lookup_insert_of_ne hne]
    exact h.fresh other (by omega)
  clients other otherConnection hlookup := by
    by_cases heq : other = client
    · subst heq
      rw [lookup_insert_self] at hlookup
      cases hlookup
      exact hconnection
    · rw [lookup_insert_of_ne heq] at hlookup
      have hinvariant := h.clients other otherConnection hlookup
      refine ⟨?_, ?_, hinvariant.started, hinvariant.sentWell, fun hopen => ?_⟩
      · change otherConnection.start ≤ journal.state.durableSnapshot.lastSequence
        rw [hstate]
        exact hinvariant.start_le
      · change journal.state.durableSnapshot.lastSequence ≤ _
        rw [hstate]
        exact hinvariant.reaches
      · change ∃ subscription, journal.subscribers.lookup other = some subscription ∧ _
        rw [hothers other heq]
        exact hinvariant.live hopen

/-- A client is known by a number that was given before. -/
theorem ServerInvariant.client_lt
    (hlookup : w.connections.lookup client = some connection) :
    client < w.journal.nextSubscriber := by
  by_contra hnot
  rw [h.fresh client (Nat.not_lt.mp hnot)] at hlookup
  cases hlookup

/-- A client is changed while the journal stays. -/
theorem ServerInvariant.move
    {connection connection' : Connection}
    (hlookup : w.connections.lookup client = some connection)
    (hsame : SameStart connection connection') (hopen : connection.closed = false)
    (hlive : ∀ subscription, Live connection subscription w.history →
      Live connection' subscription w.history) :
    ServerInvariant { w with connections := w.connections.insert client connection' } := by
  have hinvariant := h.clients client connection hlookup
  obtain ⟨subscription, hsubscription, hbefore⟩ := hinvariant.live hopen
  have hafter := hlive subscription hbefore
  obtain ⟨hstart, hstarted⟩ := hinvariant.started.congr hsame
  exact h.update w.journal rfl le_rfl (h.client_lt hlookup) (fun _ _ => rfl)
    ⟨hstart ▸ hinvariant.start_le, hstart ▸ hinvariant.reaches, hstarted, hafter.sentWell,
      fun _ => ⟨subscription, hsubscription, hafter⟩⟩

/-- A client leaves, or its connection ends. -/
theorem ServerInvariant.closeClient
    (hlookup : w.connections.lookup client = some connection) :
    ServerInvariant (w.closeClient client connection) := by
  have hinvariant := h.clients client connection hlookup
  refine h.update (unsubscribe w.journal client) rfl le_rfl (h.client_lt hlookup)
    (fun other hne => ?_)
    ⟨hinvariant.start_le, hinvariant.reaches, ?_, ?_, fun hopen => by cases hopen⟩
  · exact FinMap.lookup_delete_of_ne hne
  · exact ⟨hinvariant.started.saved, hinvariant.started.fresh, hinvariant.started.resumed⟩
  · exact ⟨hinvariant.sentWell.sent, hinvariant.sentWell.missed⟩

end

theorem observe_eq (connection : Connection) (event : EventEnvelope)
    (before after : Option Subscription) :
    connection.observe event before after = connection ∨
      connection.observe event before after =
        { connection with missed := some event.sequenceNumber } := by
  unfold Connection.observe
  split
  · exact .inr rfl
  · exact .inl rfl

/-- An event is stored and offered to every client. -/
theorem ServerInvariant.stored (h : ServerInvariant w) {journal : Journal} {event : EventEnvelope}
    {disk : Disk} (hstored : Stored config w.journal journal event) :
    ServerInvariant
      { journal, disk
        connections := w.connections.mapWithKey fun client connection =>
          connection.observe event (w.journal.subscribers.lookup client)
            (journal.subscribers.lookup client)
        history := w.history ++ [event] } := by
  have hnumber := hstored.number
  have hlast := hstored.last
  have hcall : CallResult config w.journal (journal, .ok event) := hstored
  refine ⟨h.numbered.call hcall, ?_, ?_, ?_, ?_⟩
  · change Contiguous (w.history ++ [event]) journal.state.durableSnapshot.lastSequence
    rw [hlast, hnumber]
    exact h.history.append hnumber
  · obtain ⟨dropped, hdropped⟩ := h.retained
    refine hstored.retained.trans ⟨dropped, ?_⟩
    change dropped ++ (w.journal.state.retainedEvents ++ [event]) = w.history ++ [event]
    rw [← hdropped, append_assoc]
  · intro client hclient
    change journal.nextSubscriber ≤ client at hclient
    rw [hstored.nextSubscriber] at hclient
    simp [h.fresh client hclient]
  · intro client connection hlookup
    rw [lookup_mapWithKey, map_eq_some_iff] at hlookup
    obtain ⟨old, hold, rfl⟩ := hlookup
    have hinvariant := h.clients client old hold
    have hless : ∀ other ∈ w.history, other.sequenceNumber < event.sequenceNumber := by
      intro other hother
      have hle := (h.history.le hother).2
      omega
    have hstart : old.start < event.sequenceNumber := by
      have hle := hinvariant.start_le
      omega
    have hsame : ∀ connection, (connection = old ∨
        connection = { old with missed := some event.sequenceNumber }) →
        connection.start = old.start ∧ Started connection ∧
          SentWell connection (w.history ++ [event]) ∧ connection.closed = old.closed := by
      rintro connection (rfl | rfl)
      · exact ⟨rfl, hinvariant.started, hinvariant.sentWell.append hstart, rfl⟩
      · refine ⟨rfl, ⟨hinvariant.started.saved, hinvariant.started.fresh,
          hinvariant.started.resumed⟩, ⟨(hinvariant.sentWell.append hstart).sent, ?_⟩, rfl⟩
        intro number hsome sent hsent
        cases hsome
        -- what was sent was stored before
        have hmem : .event sent ∈ old.expected w.history :=
          hinvariant.sentWell.sent.subset (content_event_mem hsent)
        exact hless sent (event_mem_expected.mp hmem).1
    obtain ⟨hstart', hstarted, hsent, hclosed⟩ := hsame _ (observe_eq old event
      (w.journal.subscribers.lookup client) (journal.subscribers.lookup client))
    refine ⟨?_, ?_, hstarted, hsent, fun hopen => ?_⟩
    · change _ ≤ journal.state.durableSnapshot.lastSequence
      rw [hstart', hlast]
      omega
    · change journal.state.durableSnapshot.lastSequence ≤ _ + (w.history ++ [event]).length
      have hreaches := hinvariant.reaches
      rw [hstart', hlast, length_append, length_singleton]
      omega
    · rw [hclosed] at hopen
      obtain ⟨subscription, hsubscription, hlive⟩ := hinvariant.live hopen
      have hoffered : journal.subscribers.lookup client = some (subscription.offer config event) := by
        rw [hstored.subscribers, lookup_map, hsubscription]
        rfl
      refine ⟨_, hoffered, ?_⟩
      rw [hsubscription, hoffered]
      exact hlive.offer hstart hless

/-- A call of the journal has ended. -/
theorem ServerInvariant.afterCall (h : ServerInvariant w)
    {program : Program (Journal × Except JournalError EventEnvelope)} {endings : List Ending}
    (hreturns : program.Returns (CallResult config w.journal))
    (hstep : w.afterCall (program.run fileSystem endings w.disk) = some w') : ServerInvariant w' := by
  rcases hrun : program.run fileSystem endings w.disk with ⟨disk, _ | ⟨journal, err | event⟩⟩
  · rw [hrun] at hstep
    cases hstep
  · rw [hrun] at hstep
    cases hstep
    obtain ⟨hstate, hsubscribers, hnext⟩ := hreturns.run hrun
    refine ⟨?_, ?_, ?_, ?_, ?_⟩
    · change Contiguous journal.state.retainedEvents journal.state.durableSnapshot.lastSequence
      rw [hstate]
      exact h.numbered
    · change Contiguous w.history journal.state.durableSnapshot.lastSequence
      rw [hstate]
      exact h.history
    · change journal.state.retainedEvents <:+ w.history
      rw [hstate]
      exact h.retained
    · intro client hclient
      change journal.nextSubscriber ≤ client at hclient
      exact h.fresh client (hnext ▸ hclient)
    · intro client connection hlookup
      have hinvariant := h.clients client connection hlookup
      refine ⟨?_, ?_, hinvariant.started, hinvariant.sentWell, fun hopen => ?_⟩
      · change _ ≤ journal.state.durableSnapshot.lastSequence
        rw [hstate]
        exact hinvariant.start_le
      · change journal.state.durableSnapshot.lastSequence ≤ _
        rw [hstate]
        exact hinvariant.reaches
      · change ∃ subscription, journal.subscribers.lookup client = some subscription ∧ _
        rw [hsubscribers]
        exact hinvariant.live hopen
  · rw [hrun] at hstep
    cases hstep
    exact h.stored (hreturns.run hrun)

/-- Every step keeps the invariant. -/
theorem ServerInvariant.step (h : ServerInvariant w) {event : ServerEvent}
    (hstep : serverStep library config w event = some w') : ServerInvariant w' := by
  cases event with
  | appendEvent eventType payload endings => exact h.afterCall (returns_appendEvent _ _ _) hstep
  | persistTask task endings => exact h.afterCall (returns_persistTask _ _) hstep
  | connect resumeAfter =>
    rw [serverStep] at hstep
    rcases hserve : serveNegotiated w.journal resumeAfter with err | ⟨journal, client, connection⟩
    · rw [hserve] at hstep
      cases hstep
    · rw [hserve] at hstep
      cases hstep
      obtain ⟨⟨hstate, hclient, hnext, hsubscribers⟩, hinvariant⟩ :=
        clientInvariant_serve h.numbered h.history h.retained hserve
      refine h.update journal hstate (by omega) (by omega) (fun other hne => ?_) hinvariant
      rw [hsubscribers, lookup_insert_of_ne hne]
  | send client =>
    rw [serverStep] at hstep
    split at hstep
    · cases hstep
    · next connection hlookup =>
      split at hstep
      · next item rest hopen htoSend =>
        cases hstep
        exact h.move hlookup ⟨rfl, rfl, rfl⟩ hopen fun subscription hlive => hlive.send htoSend
      · cases hstep
  | takeNext client expired =>
    rw [serverStep] at hstep
    split at hstep
    · next connection subscription hlookup hsubscription =>
      split at hstep
      · next hopen htoSend htaken =>
        split at hstep
        · cases hstep
        · next connection' subscription' htake =>
          have hinvariant := h.clients client connection hlookup
          obtain ⟨other, hother, hlive⟩ := hinvariant.live hopen
          rw [hsubscription, some.injEq] at hother
          subst hother
          obtain ⟨-, hends, hkeeps⟩ := hlive.takeNext htoSend htaken hopen htake
          split at hstep
          · next hclosed =>
            cases hstep
            rw [hends hclosed]
            change ServerInvariant (w.closeClient client connection)
            exact h.closeClient hlookup
          · next hclosed =>
            cases hstep
            have hafter := hkeeps (Bool.eq_false_iff.mpr hclosed)
            obtain ⟨hstart, hstarted⟩ := hinvariant.started.congr (sameStart_of_takeNext htake)
            refine h.update { w.journal with
              subscribers := w.journal.subscribers.insert client subscription' } rfl le_rfl
              (h.client_lt hlookup) (fun other hne => lookup_insert_of_ne hne) ?_
            exact ⟨hstart ▸ hinvariant.start_le, hstart ▸ hinvariant.reaches, hstarted,
              hafter.sentWell, fun _ => ⟨subscription', lookup_insert_self, hafter⟩⟩
      · cases hstep
    · cases hstep
  | deliver client =>
    rw [serverStep] at hstep
    split at hstep
    · cases hstep
    · next connection hlookup =>
      split at hstep
      · next item hopen htaken =>
        cases hstep
        exact h.move hlookup ⟨rfl, rfl, rfl⟩ hopen fun subscription hlive => hlive.deliver htaken
      · cases hstep
  | commandResult client commandId =>
    rw [serverStep] at hstep
    split at hstep
    · cases hstep
    · next connection hlookup =>
      split at hstep
      · next hopen htoSend =>
        cases hstep
        exact h.move hlookup ⟨rfl, rfl, rfl⟩ hopen fun subscription hlive =>
          hlive.move hlive.order rfl rfl rfl
      · cases hstep
  | close client =>
    rw [serverStep] at hstep
    split at hstep
    · cases hstep
    · next connection hlookup =>
      cases hstep
      exact h.closeClient hlookup

theorem serverInvariant_listen {journal : Journal} (h : journal.Fresh) (disk : Disk) :
    ServerInvariant (listen journal disk) where
  numbered := h.1
  history := h.1
  retained := suffix_rfl
  fresh := fun client _ => rfl
  clients := fun client connection hlookup => by simp [listen] at hlookup

end Runs

/-- The events after the start, numbered one after the other. -/
theorem eventsAfter_numbers {history : List EventEnvelope} {last start : ℕ}
    (h : Contiguous history last) (hstart : start ≤ last) (hreaches : last ≤ start + history.length) :
    (eventsAfter start history).map (·.sequenceNumber) = List.range' (start + 1) (last - start) := by
  refine ((pairwise_map.mpr (h.pairwise.filter _)).eq_of_mem_iff pairwise_lt_range' ?_)
  intro number
  rw [mem_range'_1, List.mem_map]
  constructor
  · rintro ⟨event, hmem, rfl⟩
    obtain ⟨hin, hafter⟩ := mem_filter.mp hmem
    have hle := (h.le hin).2
    have hlt : start < event.sequenceNumber := by simpa using hafter
    omega
  · rintro ⟨hlow, hhigh⟩
    obtain ⟨event, hin, rfl⟩ := h.exists_mem_iff.mpr ⟨(by omega : number ≤ last), by omega⟩
    exact ⟨event, mem_filter.mpr ⟨hin, by simp; omega⟩, rfl⟩

/-- **A client is sent a snapshot or nothing, and then the events that follow its start one after
the other, each once; an event that did not fit its queue is not followed by later ones, and the
sender ends the connection.  It starts from the snapshot where it has no cursor, and otherwise
exactly where its cursor is ahead or the events do not reach back to it.** -/
theorem subscription_exact {now : UTCTime} {endings : List Ending} {disk₀ disk : Disk}
    {journal : Journal}
    (hopen : (openJournal library config now).run fileSystem endings disk₀ =
      (disk, some (.ok journal))) {w : ServerWorld}
    (hw : Machine.Reachable (serverStep library config) (listen journal disk) w) {client : ℕ}
    {connection : Connection} (hclient : w.connections.lookup client = some connection) :
    content connection.sent <+: connection.expected w.history ∧
    (∃ count, (eventsAfter connection.start w.history).map (·.sequenceNumber) =
      List.range' (connection.start + 1) count) ∧
    (∀ number, connection.missed = some number → ∀ event, .event event ∈ connection.sent →
      event.sequenceNumber < number) ∧
    (∀ subscription, w.journal.subscribers.lookup client = some subscription →
      subscription.overflowed = true → ∀ expired w',
      serverStep library config w (.takeNext client expired) = some w' →
      ∃ ended, w'.connections.lookup client = some ended ∧ ended.closed = true ∧
        ended.sent = connection.sent) ∧
    Started connection := by
  have hinvariant : ServerInvariant w :=
    hw.invariant (serverInvariant_listen (openJournal_fresh hopen) disk)
      fun w event w' h _ hstep => h.step hstep
  have hclientInvariant := hinvariant.clients client connection hclient
  refine ⟨hclientInvariant.sentWell.sent, ⟨_, eventsAfter_numbers hinvariant.history
    hclientInvariant.start_le hclientInvariant.reaches⟩, hclientInvariant.sentWell.missed, ?_,
    hclientInvariant.started⟩
  intro subscription hsubscription hover expired w' hstep
  rw [serverStep, hclient, hsubscription] at hstep
  dsimp only at hstep
  split at hstep
  · rw [Connection.takeNext, hover, if_pos rfl] at hstep
    cases hstep
    exact ⟨_, lookup_insert_self, rfl, rfl⟩
  · cases hstep

/-- One task is stored before a client without a cursor connects, and one after. -/
def exampleServerEvents : List ServerEvent :=
  let stored : ServerEvent :=
    .appendEvent "note".toList .null (List.replicate 30 .succeeds)
  [stored, .connect none, .connect (some 0), stored, .send 0, .send 0, .takeNext 0 false, .deliver 0,
    .send 1, .send 1, .takeNext 1 false, .deliver 1]

/-- The numbers of the snapshots and events that a client was sent. -/
def sentNumbers (connection : Connection) : List ℕ :=
  (content connection.sent).filterMap fun
    | .snapshot saved => some saved.lastSequence
    | .event event => some event.sequenceNumber
    | _ => none

theorem subscription_exact_in_exampleServerEvents :
    ∃ w connection, Machine.Reachable (serverStep exampleLibrary exampleConfig)
        (listen (newJournal ⟨emptySnapshot, []⟩) .empty) w ∧
      w.connections.lookup 1 = some connection ∧ sentNumbers connection = [1, 2] ∧
      content connection.sent <+: connection.expected w.history ∧ Started connection := by
  have hrun : (Machine.run (serverStep exampleLibrary exampleConfig)
      (listen (newJournal ⟨emptySnapshot, []⟩) .empty) exampleServerEvents).any
      (fun w : ServerWorld =>
        decide ((w.connections.lookup 1).map sentNumbers = some [1, 2])) = true := by
    decide +kernel
  obtain ⟨w, hw, hnumbers⟩ := Machine.exists_reachable_of_run hrun
  obtain ⟨connection, hclient, hnumbers⟩ := map_eq_some_iff.mp (of_decide_eq_true hnumbers)
  have hsucceeds : ∀ disk operation, fileSystem disk operation .succeeds =
      ((succeed disk operation).1, some (succeed disk operation).2) := fun disk operation => rfl
  obtain ⟨n, hn⟩ := run_eq_complete succeed hsucceeds
    (openJournal exampleLibrary exampleConfig ⟨"2026-01-01T00:00:00Z".toList⟩) Disk.empty
  have hopen := hn n le_rfl
  rw [openJournal_empty] at hopen
  obtain ⟨hsent, -, -, -, hstarted⟩ := subscription_exact hopen hw hclient
  exact ⟨w, connection, hw, hclient, hnumbers, hsent, hstarted⟩

end HaskellAgent.Daemon
