import HaskellAgent.Lib.NumberedLog
import HaskellAgent.Server.Types

/-!
# Bounded replay of server events

The events of a boundary are numbered from `1`, and only the latest of them are kept for clients
that reconnect.  A client names the last event it has seen; it is told to reset when events after
that one are no longer kept, or when it has seen more than there are.
-/

open List

namespace HaskellAgent
namespace Server

open NumberedLog

/-- An event with data `ν`. -/
structure ServerEvent (ν : Type) where
  serverEventId : ℤ
  serverEventBoundary : AccessBoundary
  serverEventType : Text
  serverEventTurnId : Option Text
  serverEventSessionId : Option Text
  serverEventData : ν
  serverEventAt : ℤ
  deriving DecidableEq

structure EventBuffer (ν : Type) where
  eventBufferReplay : List (ServerEvent ν)
  eventBufferNextId : ℤ

variable {ν : Type}

def emptyEventBuffer : EventBuffer ν := ⟨[], 1⟩

def trimReplay {α : Type} (limit : ℕ) (values : List α) : List α :=
  values.drop (values.length - limit)

def appendReplayEvent (limit : ℕ) (now : ℤ) (boundary : AccessBoundary) (eventType : Text)
    (turnId sessionId : Option Text) (value : ν) (buffer : EventBuffer ν) :
    ServerEvent ν × EventBuffer ν :=
  let event : ServerEvent ν :=
    { serverEventId := buffer.eventBufferNextId
      serverEventBoundary := boundary
      serverEventType := eventType
      serverEventTurnId := turnId
      serverEventSessionId := sessionId
      serverEventData := value
      serverEventAt := now }
  (event,
    { eventBufferReplay := trimReplay limit (buffer.eventBufferReplay ++ [event])
      eventBufferNextId := buffer.eventBufferNextId + 1 })

structure ReplaySelection (ν : Type) where
  replayEvents : List (ServerEvent ν)
  replayResetRequired : Bool
  replayLatestEventId : Option ℤ

def selectReplay (lastEventId : Option ℤ) (buffer : EventBuffer ν) : ReplaySelection ν :=
  let replay := buffer.eventBufferReplay
  let oldest := replay.head?.map (·.serverEventId)
  let latest := replay.getLast?.map (·.serverEventId)
  { replayEvents := match lastEventId with
      | none => []
      | some requested => replay.filter fun event => requested < event.serverEventId
    replayResetRequired := match lastEventId, oldest with
      | none, _ => false
      | some requested, none => decide (0 < requested)
      | some requested, some firstId =>
          decide (requested < firstId - 1) || latest.any fun last => last < requested
    replayLatestEventId := latest }

/-! ### The buffer of a log -/

/-- The buffer keeps the last `limit` events of a numbered log. -/
structure Replays (limit : ℕ) (log : List (ServerEvent ν)) (buffer : EventBuffer ν) : Prop where
  numbered : Numbered (·.serverEventId) log
  replay : buffer.eventBufferReplay = keepLast limit log
  nextId : buffer.eventBufferNextId = log.length + 1

variable {limit : ℕ} {log : List (ServerEvent ν)} {buffer : EventBuffer ν}

theorem replays_empty (limit : ℕ) : Replays limit ([] : List (ServerEvent ν)) emptyEventBuffer :=
  ⟨.nil, by simp [emptyEventBuffer, keepLast], rfl⟩

section

variable (h : Replays limit log buffer)
include h

/-- **Appending to the buffer appends to its log.** -/
theorem Replays.append (now : ℤ) (boundary : AccessBoundary)
    (eventType : Text) (turnId sessionId : Option Text) (value : ν) :
    Replays limit
      (log ++ [(appendReplayEvent limit now boundary eventType turnId sessionId value buffer).1])
      (appendReplayEvent limit now boundary eventType turnId sessionId value buffer).2 where
  numbered := h.numbered.concat h.nextId
  replay := by
    -- trimming the trimmed log with one more entry trims the log with one more entry
    simp only [appendReplayEvent, trimReplay, h.replay, keepLast]
    rw [← drop_concat (Nat.sub_le _ _), drop_drop]
    congr 1
    simp only [length_drop, length_append, length_singleton]
    omega
  nextId := by
    simp only [appendReplayEvent, h.nextId, length_append, length_singleton]
    rfl

/-- The newest event kept is the newest there is. -/
theorem Replays.latest (hlimit : 0 < limit) :
    buffer.eventBufferReplay.getLast?.map (·.serverEventId) =
      if log = [] then none else some (log.length : ℤ) := by
  rw [h.replay, keepLast, List.getLast?_drop]
  split
  · next hle =>
    have hempty : log = [] := by
      rw [← length_eq_zero_iff]
      omega
    rw [if_pos hempty]
    rfl
  · next hlt =>
    cases hlog : log.getLast? with
    | none =>
      rw [List.getLast?_eq_none_iff] at hlog
      rw [if_pos hlog]
      rfl
    | some last =>
      have hne : log ≠ [] := by
        rintro rfl
        cases hlog
      rw [if_neg hne, Option.map_some, h.numbered.getLast hlog]

/-- The oldest event kept. -/
theorem Replays.oldest (hlimit : 0 < limit) (hne : log ≠ []) :
    buffer.eventBufferReplay.head?.map (·.serverEventId) =
      some ((log.length - limit : ℕ) + 1 : ℤ) := by
  have hpos : 0 < log.length := length_pos_iff.mpr hne
  rw [h.replay, keepLast, List.head?_drop, List.getElem?_eq_getElem (by omega), Option.map_some]
  exact congrArg some (h.numbered _ (by omega))

/-- Everything a selection replays was appended, in ascending order. -/
theorem Replays.replayEvents (requested : ℤ) :
    (selectReplay (some requested) buffer).replayEvents =
      log.drop (max (log.length - limit) requested.toNat) := by
  simp only [selectReplay, h.replay, keepLast]
  exact h.numbered.filter_drop requested _

/-- **Without a reset, the replay is every event with a larger number ever appended.** -/
theorem selectReplay_eq_filter (hlimit : 0 < limit) {requested : ℤ}
    (hreset : (selectReplay (some requested) buffer).replayResetRequired = false) :
    (selectReplay (some requested) buffer).replayEvents =
      log.filter fun event => decide (requested < event.serverEventId) := by
  rw [h.replayEvents, h.numbered.filter]
  by_cases hne : log = []
  · rw [hne, drop_nil, drop_nil]
  · -- no event above the number asked for has been trimmed
    have hfirst := h.oldest hlimit hne
    simp only [selectReplay, hfirst, Bool.or_eq_false_iff, decide_eq_false_iff_not] at hreset
    congr 1
    omega

end

end Server
end HaskellAgent
