import HaskellAgent.Lib.FinMap
import HaskellAgent.Lib.Machine
import HaskellAgent.Loop.Input

/-!
# WebSocket sessions

One socket serves many request/response exchanges, one at a time.  A reader pump puts data frames
into a bounded queue, a writer pump serializes all that is sent, and a request owns the session from
its admission until its scope ends.  Only an exchange that was completed with no frame left makes
the session idle again; every other one poisons it, so that no later request reads frames that were
meant for it.

Requests hold tokens which may escape their scope.  Whatever is done with a token names the
generation of the exchange it was given for.
-/

open List Option FinMap Machine

namespace HaskellAgent

namespace WebSocket

/-! ### The session -/

inductive ApiError
  | connectionError (message : Text)
  deriving DecidableEq

/-- The generation of an exchange, a `Word64`. -/
abbrev Generation := UInt64

/-- A data frame.  Its number and the generation it arrived in are history. -/
structure Frame where
  serial : ℕ
  bytes : List UInt8
  arrivedIn : Generation
  deriving DecidableEq

inductive SessionState
  | idle (generation : Generation)
  | active (generation : Generation)
  | finished (generation : Generation)
  | closed (owner : Option Generation) (error : ApiError)
  | poisoned (error : ApiError)
  deriving DecidableEq

/-- A command to the writer; a reply variable is a number. -/
inductive OutCommand
  | sendText (generation : Generation) (bytes : List UInt8) (reply : ℕ)
  /-- A pong with its payload, the one control message that is sent. -/
  | sendControl (payload : List UInt8)
  | closeSession (reason : Text)
  | closeSessionAndWait (reason : Text) (closed : ℕ)
  deriving DecidableEq

structure Session where
  sessionOut : List OutCommand
  sessionIn : List Frame
  /-- How many frames `sessionIn` takes. -/
  capacity : ℕ
  sessionState : SessionState
  deriving DecidableEq

structure WebSocketSessionOptions where
  inboundFrameCapacity : ℤ
  clientPingIntervalSeconds : Option ℤ
  deriving DecidableEq

def defaultWebSocketSessionOptions : WebSocketSessionOptions where
  inboundFrameCapacity := 1600
  clientPingIntervalSeconds := some 20

def newSession (options : WebSocketSessionOptions) : Session where
  sessionOut := []
  sessionIn := []
  capacity := (max 1 options.inboundFrameCapacity).toNat
  sessionState := .idle 0

def inactiveRequestError : ApiError :=
  .connectionError "WebSocket request is no longer active".toList

def invalidatedSessionError (reason : Text) : ApiError :=
  .connectionError ("WebSocket session invalidated: ".toList ++ reason)

/-- Poison the session and ask the writer to close the socket. -/
def Session.poison (session : Session) (error : ApiError) (closeReason : Text) : Session :=
  { session with
    sessionState := .poisoned error
    sessionOut := session.sessionOut ++ [.closeSession closeReason] }

/-- Queue a data frame; `none` while the queue is full. -/
def queueInboundFrame (session : Session) (serial : ℕ) (bytes : List UInt8) : Option Session :=
  match session.sessionState with
  | .active generation =>
      if session.sessionIn.length < session.capacity then
        some { session with
          sessionIn := session.sessionIn ++ [{ serial, bytes, arrivedIn := generation }] }
      else none
  | .idle _ =>
      some (session.poison
        (invalidatedSessionError "received a response frame without an active request".toList)
        "unexpected response frame".toList)
  | .finished _ =>
      some (session.poison
        (invalidatedSessionError "received a response frame after request completion".toList)
        "response frame after completion".toList)
  | .closed _ _ | .poisoned _ => some session

def closeSession (session : Session) (error : ApiError) : Session :=
  match session.sessionState with
  | .idle _ => { session with sessionState := .closed none error }
  | .active generation | .finished generation =>
      { session with sessionState := .closed (some generation) error }
  | .closed _ _ | .poisoned _ => session

def requestGenerationActive (session : Session) (generation : Generation) : Bool :=
  match session.sessionState with
  | .active activeGeneration => activeGeneration == generation
  | _ => false

def queueControl (session : Session) (payload : List UInt8) : Session :=
  match session.sessionState with
  | .idle _ | .active _ | .finished _ =>
      { session with sessionOut := session.sessionOut ++ [.sendControl payload] }
  | .closed _ _ | .poisoned _ => session

def finishRequest (session : Session) (requestGeneration : Generation) : Session :=
  match session.sessionState with
  | .active generation =>
      if generation = requestGeneration then
        session.poison
          (invalidatedSessionError "request returned before response completion".toList)
          "response not completed".toList
      else session
  | .finished generation =>
      if generation = requestGeneration then
        if session.sessionIn.isEmpty then
          { session with sessionState := .idle (generation + 1) }
        else
          session.poison
            (invalidatedSessionError "response frames remained after request completion".toList)
            "response boundary lost".toList
      else session
  | _ => session

def completeWebSocketRequest (session : Session) (requestGeneration : Generation) : Session :=
  match session.sessionState with
  | .active generation =>
      if generation = requestGeneration then
        { session with sessionState := .finished generation }
      else session
  | _ => session

def invalidateWebSocketRequest (session : Session) (requestGeneration : Generation)
    (reason : Text) : Session :=
  match session.sessionState with
  | .active generation | .finished generation =>
      if generation = requestGeneration then
        session.poison (invalidatedSessionError reason) reason
      else session
  | _ => session

def queueRequestText (session : Session) (requestGeneration : Generation) (bytes : List UInt8)
    (reply : ℕ) : Session × Except ApiError Unit :=
  match session.sessionState with
  | .active generation =>
      if generation = requestGeneration then
        ({ session with
            sessionOut := session.sessionOut ++ [.sendText generation bytes reply] },
          .ok ())
      else (session, .error inactiveRequestError)
  | .closed _ error | .poisoned error => (session, .error error)
  | _ => (session, .error inactiveRequestError)

/-- The transaction of `receiveWebSocketData`; `none` while there is no frame to take. -/
def receiveWebSocketData (session : Session) (requestGeneration : Generation) :
    Option (Session × Except ApiError Frame) :=
  match session.sessionState with
  | .active generation =>
      if generation = requestGeneration then
        match session.sessionIn with
        | [] => none
        | frame :: frames => some ({ session with sessionIn := frames }, .ok frame)
      else some (session, .error inactiveRequestError)
  | .closed owner error =>
      if owner = some requestGeneration then
        match session.sessionIn with
        | [] => some (session, .error error)
        | frame :: frames => some ({ session with sessionIn := frames }, .ok frame)
      else some (session, .error error)
  | .poisoned error => some (session, .error error)
  | _ => some (session, .error inactiveRequestError)

/-- Admit a request, or refuse it; `none` while another one owns the session. -/
def acquireRequest (session : Session) : Option (Session × Except ApiError Generation) :=
  match session.sessionState with
  | .idle generation =>
      if session.sessionIn.isEmpty then
        some ({ session with sessionState := .active generation }, .ok generation)
      else
        let error := invalidatedSessionError "unclaimed response frames were queued".toList
        some (session.poison error "unclaimed response frames".toList, .error error)
  | .active _ | .finished _ => none
  | .closed _ error | .poisoned error => some (session, .error error)

/-! ### The threads -/

/-- What the socket gives the reader. -/
inductive SocketMessage
  | data (bytes : List UInt8)
  | ping (payload : List UInt8)
  | pong
  | close (code : ℕ) (reason : Text)
  /-- The receive failed with this exception. -/
  | failure (message : Text)
  deriving DecidableEq

inductive Reader
  | receiving
  | data (serial : ℕ) (bytes : List UInt8)
  | ping (payload : List UInt8)
  | terminating (reason : Text)
  | stopped
  deriving DecidableEq

inductive Writer
  | ready
  /-- It is about to check that the text's exchange is still active. -/
  | checking (generation : Generation) (bytes : List UInt8) (reply : ℕ)
  | sendingText (bytes : List UInt8) (reply : ℕ)
  | sendingControl (payload : List UInt8)
  | closing (reason : Text) (closed : Option ℕ)
  | stopped
  deriving DecidableEq

/-- A request that was admitted, and the token it was given. -/
structure Request where
  generation : Generation
  sendIdleTimeoutMicros : Option ℤ
  receiveIdleTimeoutMicros : Option ℤ
  /-- Its number among the requests admitted. -/
  admission : ℕ
  /-- Its scope has ended. -/
  ended : Bool
  /-- It was completed when no frame was queued. -/
  clean : Bool
  deriving DecidableEq

structure World where
  session : Session
  reader : Reader
  writer : Writer
  /-- The requests admitted, by the number of their call. -/
  requests : FinMap ℕ Request
  /-- The replies put, by variable. -/
  replies : FinMap ℕ (Except ApiError Unit)
  nextReply : ℕ
  /-- History: how many requests were admitted. -/
  admissions : ℕ
  /-- History: how many data frames the reader has received. -/
  received : ℕ
  /-- History: the frames delivered, each with the call it went to, in order. -/
  delivered : List (Frame × ℕ)

def World.init (options : WebSocketSessionOptions) : World where
  session := newSession options
  reader := .receiving
  writer := .ready
  requests := .empty
  replies := .empty
  nextReply := 0
  admissions := 0
  received := 0
  delivered := []

/-- What is done with the token of a call. -/
inductive TokenOp
  | complete
  | invalidate (reason : Text)
  | sendText (bytes : List UInt8)
  | receive
  /-- `awaitWithTimeout` gives up waiting for the writer. -/
  | sendTimeout
  /-- `awaitWithTimeout` gives up waiting for a frame. -/
  | receiveTimeout
  /-- The action of the scope throws. -/
  | throwAction
  /-- The action of the scope returns. -/
  | returnAction
  deriving DecidableEq

inductive Event
  | beginRequest (call : ℕ) (sendTimeout receiveTimeout : Option ℤ)
  | token (call : ℕ) (op : TokenOp)
  | closeWebSocketSession (reason : Text)
  /-- The owner of the connection has stopped. -/
  | ownerStopped
  | readerReceives (message : SocketMessage)
  | readerActs
  | readerCancelled
  | writerTakes
  | writerChecks
  /-- A write ends, with the exception it failed with. -/
  | writerSent (failure : Option Text)
  | writerCancelled
  deriving DecidableEq

/-- Whether `awaitWithTimeout` limits the wait. -/
def limited : Option ℤ → Bool
  | some micros => decide (0 < micros)
  | none => false

/-- The scope of a call has ended. -/
def World.endScope (w : World) (call : ℕ) (request : Request) (session : Session) : World :=
  { w with session, requests := w.requests.insert call { request with ended := true } }

def World.tokenStep (w : World) (call : ℕ) (request : Request) : TokenOp → Option World
  | .complete =>
      some { w with
        session := completeWebSocketRequest w.session request.generation
        requests :=
          if requestGenerationActive w.session request.generation then
            w.requests.insert call { request with clean := w.session.sessionIn.isEmpty }
          else w.requests }
  | .invalidate reason =>
      some { w with session := invalidateWebSocketRequest w.session request.generation reason }
  | .sendText bytes =>
      some { w with
        session := (queueRequestText w.session request.generation bytes w.nextReply).1
        nextReply := w.nextReply + 1 }
  | .receive =>
      (receiveWebSocketData w.session request.generation).map fun
        | (session, .ok frame) =>
            { w with session, delivered := w.delivered ++ [(frame, call)] }
        | (session, .error _) => { w with session }
  | .sendTimeout =>
      if limited request.sendIdleTimeoutMicros then
        some { w with
          session := invalidateWebSocketRequest w.session request.generation
            "WebSocket send idle timeout".toList }
      else none
  | .receiveTimeout =>
      if limited request.receiveIdleTimeoutMicros then
        some { w with
          session := invalidateWebSocketRequest w.session request.generation
            "WebSocket receive idle timeout".toList }
      else none
  | .throwAction =>
      if request.ended then none
      else some (w.endScope call request
        (invalidateWebSocketRequest w.session request.generation
          "response consumer interrupted".toList))
  | .returnAction =>
      if request.ended then none
      else some (w.endScope call request (finishRequest w.session request.generation))

/-- The reader's transaction about the message it has received. -/
def World.readerStep (w : World) : Option World :=
  match w.reader with
  | .data serial bytes =>
      (queueInboundFrame w.session serial bytes).map fun session =>
        { w with session, reader := .receiving }
  | .ping payload =>
      some { w with session := queueControl w.session payload, reader := .receiving }
  | .terminating reason =>
      some { w with
        session := closeSession w.session (.connectionError reason), reader := .stopped }
  | .receiving | .stopped => none

def World.readerReceive (w : World) : SocketMessage → World
  | .data bytes => { w with reader := .data w.received bytes, received := w.received + 1 }
  | .ping payload => { w with reader := .ping payload }
  | .pong => w
  | .close code reason =>
      { w with
        reader := .terminating ("WebSocket closed by server (".toList ++ (toString code).toList
          ++ "): ".toList ++ reason) }
  | .failure message =>
      { w with reader := .terminating ("WebSocket receive error: ".toList ++ message) }

/-- What the writer does about a command it takes. -/
def Writer.take : OutCommand → Writer
  | .sendText generation bytes reply => .checking generation bytes reply
  | .sendControl payload => .sendingControl payload
  | .closeSession reason => .closing reason none
  | .closeSessionAndWait reason closed => .closing reason (some closed)

def sendError (failure : Text) : ApiError :=
  .connectionError ("WebSocket send error: ".toList ++ failure)

/-- The writer after a write; the connection is closed for everybody when it fails. -/
def World.writerResult (w : World) (failure : Option Text) : Option World :=
  match w.writer with
  | .sendingText _ reply =>
      match failure with
      | some message =>
          some { w with
            session := closeSession w.session (sendError message)
            replies := w.replies.insert reply (.error (sendError message))
            writer := .stopped }
      | none => some { w with replies := w.replies.insert reply (.ok ()), writer := .ready }
  | .sendingControl _ =>
      match failure with
      | some message =>
          some { w with
            session := closeSession w.session (sendError message), writer := .stopped }
      | none => some { w with writer := .ready }
  | .closing _ closed =>
      some { w with
        replies := match closed with
          | some reply => w.replies.insert reply (.ok ())
          | none => w.replies
        writer := .stopped }
  | .ready | .checking .. | .stopped => none

def World.step (w : World) : Event → Option World
  | .beginRequest call sendIdleTimeoutMicros receiveIdleTimeoutMicros =>
      if w.requests.lookup call = none then
        (acquireRequest w.session).map fun
          | (session, .ok generation) =>
              { w with
                session
                requests := w.requests.insert call
                  { generation, sendIdleTimeoutMicros, receiveIdleTimeoutMicros
                    admission := w.admissions, ended := false, clean := false }
                admissions := w.admissions + 1 }
          | (session, .error _) => { w with session }
      else none
  | .token call op => (w.requests.lookup call).bind fun request => w.tokenStep call request op
  | .closeWebSocketSession reason =>
      let session := closeSession w.session (.connectionError reason)
      some { w with
        session := { session with
          sessionOut := session.sessionOut ++ [.closeSessionAndWait reason w.nextReply] }
        nextReply := w.nextReply + 1 }
  | .ownerStopped =>
      some { w with
        session := closeSession w.session
          (.connectionError "WebSocket connection owner stopped".toList) }
  | .readerReceives message =>
      if w.reader = .receiving then some (w.readerReceive message) else none
  | .readerActs => w.readerStep
  | .readerCancelled => some { w with reader := .stopped }
  | .writerTakes =>
      if w.writer = .ready then
        match w.session.sessionOut with
        | [] => none
        | command :: commands =>
            some { w with
              session := { w.session with sessionOut := commands }
              writer := .take command }
      else none
  | .writerChecks =>
      match w.writer with
      | .checking generation bytes reply =>
          if requestGenerationActive w.session generation then
            some { w with writer := .sendingText bytes reply }
          else
            some { w with
              replies := w.replies.insert reply (.error inactiveRequestError)
              writer := .ready }
      | _ => none
  | .writerSent failure => w.writerResult failure
  | .writerCancelled => some { w with writer := .stopped }

/-- A request is admitted as at most the `2 ^ 64`th. -/
def AdmissionsLeft (w : World) : Event → Prop
  | .beginRequest .. => w.admissions < 2 ^ 64
  | _ => True

instance (w : World) : ∀ event, Decidable (AdmissionsLeft w event)
  | .beginRequest .. => inferInstanceAs (Decidable (w.admissions < 2 ^ 64))
  | .token .. | .closeWebSocketSession _ | .ownerStopped | .readerReceives _ | .readerActs
  | .readerCancelled | .writerTakes | .writerChecks | .writerSent _ | .writerCancelled =>
      inferInstanceAs (Decidable True)

/-! ### Who owns the session -/

/-- The exchange whose scope the session is held by. -/
def SessionState.holder : SessionState → Option Generation
  | .active generation | .finished generation => some generation
  | _ => none

/-- The exchange that queued frames belong to. -/
def SessionState.owner : SessionState → Option Generation
  | .active generation | .finished generation => some generation
  | .closed owner _ => owner
  | _ => none

/-- Nothing is admitted any more. -/
def SessionState.terminal : SessionState → Bool
  | .closed _ _ | .poisoned _ => true
  | _ => false

/-- A transaction that keeps the session's state and frames, or ends the session. -/
def Spares (session session' : Session) : Prop :=
  session'.sessionIn = session.sessionIn ∧
    (session'.sessionState = session.sessionState ∨
      session'.sessionState.terminal = true ∧
        (session'.sessionState.owner = none ∨
          session'.sessionState.owner = session.sessionState.owner))

theorem Spares.refl (session : Session) : Spares session session := ⟨rfl, .inl rfl⟩

variable {session session' : Session} {generation : Generation}

theorem spares_poison (error : ApiError) (reason : Text) :
    Spares session (session.poison error reason) := ⟨rfl, .inr ⟨rfl, .inl rfl⟩⟩

theorem spares_closeSession (session : Session) (error : ApiError) :
    Spares session (closeSession session error) := by
  unfold closeSession
  split
  · exact ⟨rfl, .inr ⟨rfl, .inl rfl⟩⟩
  · next h => exact ⟨rfl, .inr ⟨rfl, .inr (by rw [h]; rfl)⟩⟩
  · next h => exact ⟨rfl, .inr ⟨rfl, .inr (by rw [h]; rfl)⟩⟩
  · exact .refl _
  · exact .refl _

theorem spares_queueControl (session : Session) (payload : List UInt8) :
    Spares session (queueControl session payload) := by
  unfold queueControl
  split <;> exact ⟨rfl, .inl rfl⟩

theorem spares_queueRequestText (session : Session) (generation : Generation)
    (bytes : List UInt8) (reply : ℕ) :
    Spares session (queueRequestText session generation bytes reply).1 := by
  unfold queueRequestText
  split
  · split <;> exact ⟨rfl, .inl rfl⟩
  all_goals exact .refl _

/-- An invalidation poisons the session of its own exchange, and leaves every other one alone. -/
theorem invalidateWebSocketRequest_cases (session : Session) (generation : Generation)
    (reason : Text) :
    (session.sessionState.holder = some generation ∧
      invalidateWebSocketRequest session generation reason =
        session.poison (invalidatedSessionError reason) reason) ∨
    (session.sessionState.holder ≠ some generation ∧
      invalidateWebSocketRequest session generation reason = session) := by
  unfold invalidateWebSocketRequest
  cases h : session.sessionState with
  | active g | finished g =>
    by_cases hg : g = generation <;> simp [SessionState.holder, hg]
  | idle _ | closed _ _ | poisoned _ => simp [SessionState.holder]

theorem spares_invalidateWebSocketRequest (session : Session) (generation : Generation)
    (reason : Text) : Spares session (invalidateWebSocketRequest session generation reason) := by
  rcases invalidateWebSocketRequest_cases session generation reason with ⟨-, h⟩ | ⟨-, h⟩
  · rw [h]
    exact spares_poison _ _
  · rw [h]
    exact .refl _

/-- The end of a scope: a completed exchange without frames makes the session idle, any other one
poisons it, and a scope that no longer holds the session leaves it alone. -/
theorem finishRequest_cases (session : Session) (generation : Generation) :
    (session.sessionState = .finished generation ∧ session.sessionIn = [] ∧
      finishRequest session generation =
        { session with sessionState := .idle (generation + 1) }) ∨
    (session.sessionState.holder = some generation ∧
      ∃ error reason, finishRequest session generation = session.poison error reason) ∨
    (session.sessionState.holder ≠ some generation ∧
      finishRequest session generation = session) := by
  unfold finishRequest
  cases h : session.sessionState with
  | active g =>
    by_cases hg : g = generation
    · refine .inr (.inl ⟨by rw [hg]; rfl, ?_⟩)
      simp only [hg, if_true]
      exact ⟨_, _, rfl⟩
    · refine .inr (.inr ⟨fun heq => hg (some.inj heq), ?_⟩)
      simp only [hg, if_false]
  | finished g =>
    by_cases hg : g = generation
    · cases hin : session.sessionIn with
      | nil => exact .inl ⟨by rw [hg], rfl, by simp [hg]⟩
      | cons frame frames =>
        refine .inr (.inl ⟨by rw [hg]; rfl, ?_⟩)
        simp only [hg, if_true, isEmpty_cons, Bool.false_eq_true, if_false]
        exact ⟨_, _, rfl⟩
    · refine .inr (.inr ⟨fun heq => hg (some.inj heq), ?_⟩)
      simp only [hg, if_false]
  | idle _ | closed _ _ | poisoned _ => simp [SessionState.holder]

/-- A completion takes effect only on its own active exchange. -/
theorem completeWebSocketRequest_cases (session : Session) (generation : Generation) :
    (requestGenerationActive session generation = true ∧
      session.sessionState = .active generation ∧
      completeWebSocketRequest session generation =
        { session with sessionState := .finished generation }) ∨
    (requestGenerationActive session generation = false ∧
      session.sessionState ≠ .active generation ∧
      completeWebSocketRequest session generation = session) := by
  unfold completeWebSocketRequest requestGenerationActive
  cases h : session.sessionState with
  | active g => by_cases hg : g = generation <;> simp [hg]
  | idle _ | finished _ | closed _ _ | poisoned _ => simp

/-- A frame is received only by the exchange it belongs to, and in order. -/
theorem receiveWebSocketData_cases {answer : Except ApiError Frame}
    (h : receiveWebSocketData session generation = some (session', answer)) :
    (∃ frame frames, session.sessionState.owner = some generation ∧
      session.sessionState ≠ .finished generation ∧
      session.sessionIn = frame :: frames ∧ answer = .ok frame ∧
      session' = { session with sessionIn := frames }) ∨
    (∃ error, answer = .error error ∧ session' = session) := by
  unfold receiveWebSocketData at h
  split at h
  · next g hs =>
    split at h
    · next hg =>
      split at h
      · cases h
      · next frame frames hin =>
        cases h
        exact .inl ⟨frame, frames, by rw [hs, hg]; rfl, by simp [hs], hin, rfl, rfl⟩
    · cases h
      exact .inr ⟨_, rfl, rfl⟩
  · next owner error hs =>
    split at h
    · next hg =>
      split at h
      · cases h
        exact .inr ⟨_, rfl, rfl⟩
      · next frame frames hin =>
        cases h
        exact .inl ⟨frame, frames, by rw [hs, hg]; rfl, by simp [hs], hin, rfl, rfl⟩
    · cases h
      exact .inr ⟨_, rfl, rfl⟩
  · cases h
    exact .inr ⟨_, rfl, rfl⟩
  · cases h
    exact .inr ⟨_, rfl, rfl⟩

/-- A frame is queued only in an active exchange; outside one it ends the session. -/
theorem queueInboundFrame_cases {serial : ℕ} {bytes : List UInt8}
    (h : queueInboundFrame session serial bytes = some session') :
    (∃ g, session.sessionState = .active g ∧
      session' = { session with
        sessionIn := session.sessionIn ++ [{ serial, bytes, arrivedIn := g }] }) ∨
    Spares session session' := by
  unfold queueInboundFrame at h
  split at h
  · next g hs =>
    split at h
    · cases h
      exact .inl ⟨g, hs, rfl⟩
    · cases h
  · cases h
    exact .inr (spares_poison _ _)
  · cases h
    exact .inr (spares_poison _ _)
  · cases h
    exact .inr (.refl _)
  · cases h
    exact .inr (.refl _)

/-- A request is admitted only to an idle session with no frame queued. -/
theorem acquireRequest_cases {answer : Except ApiError Generation}
    (h : acquireRequest session = some (session', answer)) :
    (∃ g, session.sessionState = .idle g ∧ session.sessionIn = [] ∧ answer = .ok g ∧
      session' = { session with sessionState := .active g }) ∨
    (∃ error, answer = .error error ∧ Spares session session') := by
  unfold acquireRequest at h
  split at h
  · next g hs =>
    split at h
    · next hin =>
      cases h
      exact .inl ⟨g, hs, List.isEmpty_iff.mp hin, rfl, rfl⟩
    · cases h
      exact .inr ⟨_, rfl, spares_poison _ _⟩
  · cases h
  · cases h
  · cases h
    exact .inr ⟨_, rfl, .refl _⟩
  · cases h
    exact .inr ⟨_, rfl, .refl _⟩

/-- **A closed or poisoned session refuses every request, and stays as it is.** -/
theorem acquireRequest_of_terminal (h : session.sessionState.terminal = true) :
    ∃ error, acquireRequest session = some (session, .error error) := by
  unfold acquireRequest
  cases hs : session.sessionState with
  | closed owner error | poisoned error => exact ⟨error, rfl⟩
  | idle _ | active _ | finished _ =>
    rw [hs] at h
    cases h

/-! ### What a step does -/

/-- The number of the frame the reader hands over next. -/
def World.nextSerial (w : World) : ℕ :=
  match w.reader with
  | .data serial _ => serial
  | _ => w.received

/-- What a step does to the session and its requests. -/
inductive Move (event : Event) (w w' : World) : Prop
  /-- The requests are left alone, and the session too unless it ends. -/
  | spare (session : Spares w.session w'.session) (requests : w'.requests = w.requests)
      (admissions : w'.admissions = w.admissions) (delivered : w'.delivered = w.delivered)
  /-- A frame arrives in the active exchange. -/
  | arrive (g : Generation) (bytes : List UInt8) (active : w.session.sessionState = .active g)
      (state : w'.session.sessionState = .active g)
      (queue : w'.session.sessionIn =
        w.session.sessionIn ++ [{ serial := w.nextSerial, bytes, arrivedIn := g }])
      (next : w.nextSerial < w'.nextSerial) (requests : w'.requests = w.requests)
      (admissions : w'.admissions = w.admissions) (delivered : w'.delivered = w.delivered)
  /-- A request is admitted. -/
  | accept (call : ℕ) (request : Request)
      (begins : ∃ sendTimeout receiveTimeout,
        event = .beginRequest call sendTimeout receiveTimeout)
      (new : w.requests.lookup call = none)
      (idle : w.session.sessionState = .idle request.generation)
      (empty : w.session.sessionIn = [])
      (state : w'.session.sessionState = .active request.generation)
      (queue : w'.session.sessionIn = []) (admission : request.admission = w.admissions)
      (running : request.ended = false)
      (requests : w'.requests = w.requests.insert call request)
      (admissions : w'.admissions = w.admissions + 1) (delivered : w'.delivered = w.delivered)
  /-- The active exchange is completed. -/
  | complete (call : ℕ) (request : Request) (old : w.requests.lookup call = some request)
      (active : w.session.sessionState = .active request.generation)
      (state : w'.session.sessionState = .finished request.generation)
      (queue : w'.session.sessionIn = w.session.sessionIn)
      (requests : w'.requests =
        w.requests.insert call { request with clean := w.session.sessionIn.isEmpty })
      (admissions : w'.admissions = w.admissions) (delivered : w'.delivered = w.delivered)
  /-- A frame is delivered to the exchange that owns it. -/
  | deliver (call : ℕ) (request : Request) (frame : Frame)
      (old : w.requests.lookup call = some request)
      (owned : w.session.sessionState.owner = some request.generation)
      (unfinished : w.session.sessionState ≠ .finished request.generation)
      (state : w'.session.sessionState = w.session.sessionState)
      (queue : w.session.sessionIn = frame :: w'.session.sessionIn)
      (requests : w'.requests = w.requests)
      (admissions : w'.admissions = w.admissions)
      (delivered : w'.delivered = w.delivered ++ [(frame, call)])
  /-- The scope of a completed exchange ends with no frame left. -/
  | release (call : ℕ) (request : Request) (old : w.requests.lookup call = some request)
      (running : request.ended = false)
      (finished : w.session.sessionState = .finished request.generation)
      (empty : w.session.sessionIn = [])
      (state : w'.session.sessionState = .idle (request.generation + 1))
      (queue : w'.session.sessionIn = [])
      (requests : w'.requests = w.requests.insert call { request with ended := true })
      (admissions : w'.admissions = w.admissions) (delivered : w'.delivered = w.delivered)
  /-- Another scope ends; the session ends with it if the scope holds it. -/
  | abandon (call : ℕ) (request : Request) (old : w.requests.lookup call = some request)
      (running : request.ended = false) (session : Spares w.session w'.session)
      (ends : w.session.sessionState.holder = some request.generation →
        w'.session.sessionState.terminal = true)
      (requests : w'.requests = w.requests.insert call { request with ended := true })
      (admissions : w'.admissions = w.admissions) (delivered : w'.delivered = w.delivered)

variable {w w' : World} {call : ℕ} {request : Request} {op : TokenOp} {event : Event}

/-- What is done with a token, by its effect. -/
theorem tokenStep_move (old : w.requests.lookup call = some request)
    (hst : w.tokenStep call request op = some w') : Move event w w' := by
  cases op with
  | complete =>
    simp only [World.tokenStep, some.injEq] at hst
    subst hst
    rcases completeWebSocketRequest_cases w.session request.generation with
      ⟨hactive, hs, heq⟩ | ⟨hactive, -, heq⟩
    · refine .complete call request old hs ?_ ?_ ?_ rfl rfl
      · simp only [heq]
      · simp only [heq]
      · simp only [hactive, if_true]
    · refine .spare ?_ ?_ rfl rfl
      · simp only [heq]
        exact .refl _
      · simp only [hactive, Bool.false_eq_true, if_false]
  | invalidate reason =>
    simp only [World.tokenStep, some.injEq] at hst
    subst hst
    exact .spare (spares_invalidateWebSocketRequest _ _ _) rfl rfl rfl
  | sendText bytes =>
    simp only [World.tokenStep, some.injEq] at hst
    subst hst
    exact .spare (spares_queueRequestText _ _ _ _) rfl rfl rfl
  | receive =>
    obtain ⟨⟨session, answer⟩, hreceive, rfl⟩ := map_eq_some_iff.mp hst
    rcases receiveWebSocketData_cases hreceive with
      ⟨frame, frames, hs, hunfinished, hin, rfl, rfl⟩ | ⟨error, rfl, rfl⟩
    · exact .deliver call request frame old hs hunfinished rfl hin rfl rfl rfl
    · exact .spare (.refl _) rfl rfl rfl
  | sendTimeout | receiveTimeout =>
    simp only [World.tokenStep, ite_none_right_eq_some, some.injEq] at hst
    obtain ⟨-, rfl⟩ := hst
    exact .spare (spares_invalidateWebSocketRequest _ _ _) rfl rfl rfl
  | throwAction =>
    simp only [World.tokenStep, ite_none_left_eq_some, some.injEq,
      Bool.not_eq_true] at hst
    obtain ⟨hrunning, rfl⟩ := hst
    refine .abandon call request old hrunning (spares_invalidateWebSocketRequest _ _ _) ?_
      rfl rfl rfl
    intro hholder
    rcases invalidateWebSocketRequest_cases w.session request.generation
      "response consumer interrupted".toList with ⟨-, heq⟩ | ⟨hne, -⟩
    · simp only [World.endScope, heq]
      rfl
    · exact absurd hholder hne
  | returnAction =>
    simp only [World.tokenStep, ite_none_left_eq_some, some.injEq,
      Bool.not_eq_true] at hst
    obtain ⟨hrunning, rfl⟩ := hst
    rcases finishRequest_cases w.session request.generation with
      ⟨hs, hin, heq⟩ | ⟨-, error, reason, heq⟩ | ⟨hne, heq⟩
    · refine .release call request old hrunning hs hin ?_ ?_ rfl rfl rfl
      · simp only [World.endScope, heq]
      · simp only [World.endScope, heq, hin]
    · refine .abandon call request old hrunning ?_ (fun _ => ?_) rfl rfl rfl
      · simp only [World.endScope, heq]
        exact spares_poison _ _
      · simp only [World.endScope, heq]
        rfl
    · refine .abandon call request old hrunning ?_ (fun h => absurd h hne) rfl rfl rfl
      simp only [World.endScope, heq]
      exact .refl _

/-- The frame the reader holds is one of those it has received. -/
def World.Numbered (w : World) : Prop :=
  ∀ serial bytes, w.reader = .data serial bytes → serial < w.received

/-- **What a step of any thread does to the session.** -/
theorem step_move (hn : w.Numbered) (hst : w.step event = some w') : Move event w w' := by
  cases event with
  | beginRequest call sendTimeout receiveTimeout =>
    simp only [World.step, ite_none_right_eq_some] at hst
    obtain ⟨hnew, hst⟩ := hst
    obtain ⟨⟨session, answer⟩, hacquire, rfl⟩ := map_eq_some_iff.mp hst
    rcases acquireRequest_cases hacquire with ⟨g, hs, hin, rfl, rfl⟩ | ⟨error, rfl, hspares⟩
    · exact .accept call _ ⟨_, _, rfl⟩ hnew hs hin rfl hin rfl rfl rfl rfl rfl
    · exact .spare hspares rfl rfl rfl
  | token call op =>
    obtain ⟨request, old, hst⟩ := bind_eq_some_iff.mp hst
    exact tokenStep_move old hst
  | closeWebSocketSession reason | ownerStopped =>
    cases hst
    exact .spare (spares_closeSession _ _) rfl rfl rfl
  | readerReceives message =>
    simp only [World.step, ite_none_right_eq_some, some.injEq] at hst
    obtain ⟨-, rfl⟩ := hst
    cases message <;> exact .spare (.refl _) rfl rfl rfl
  | readerActs =>
    simp only [World.step, World.readerStep] at hst
    split at hst
    · next serial bytes hreader =>
      obtain ⟨session, hqueue, rfl⟩ := map_eq_some_iff.mp hst
      have hnext : w.nextSerial = serial := by rw [World.nextSerial, hreader]
      rcases queueInboundFrame_cases hqueue with ⟨g, hs, rfl⟩ | hspares
      · refine .arrive g bytes hs hs ?_ ?_ rfl rfl rfl
        · rw [hnext]
        · rw [hnext]
          exact hn serial bytes hreader
      · exact .spare hspares rfl rfl rfl
    · cases hst
      exact .spare (spares_queueControl _ _) rfl rfl rfl
    · cases hst
      exact .spare (spares_closeSession _ _) rfl rfl rfl
    · cases hst
    · cases hst
  | readerCancelled =>
    cases hst
    exact .spare (.refl _) rfl rfl rfl
  | writerTakes =>
    simp only [World.step, ite_none_right_eq_some] at hst
    obtain ⟨-, hst⟩ := hst
    split at hst
    · cases hst
    · cases hst
      exact .spare ⟨rfl, .inl rfl⟩ rfl rfl rfl
  | writerChecks =>
    simp only [World.step] at hst
    split at hst
    · split at hst <;> cases hst <;> exact .spare (.refl _) rfl rfl rfl
    · cases hst
  | writerSent failure =>
    simp only [World.step, World.writerResult] at hst
    split at hst
    · split at hst <;> cases hst
      · exact .spare (spares_closeSession _ _) rfl rfl rfl
      · exact .spare (.refl _) rfl rfl rfl
    · split at hst <;> cases hst
      · exact .spare (spares_closeSession _ _) rfl rfl rfl
      · exact .spare (.refl _) rfl rfl rfl
    · cases hst
      exact .spare (.refl _) rfl rfl rfl
    · cases hst
    · cases hst
    · cases hst
  | writerCancelled =>
    cases hst
    exact .spare (.refl _) rfl rfl rfl

/-- The reader numbers the frames in the order it receives them. -/
theorem step_numbered (hn : w.Numbered) (hst : w.step event = some w') :
    w'.Numbered ∧ w.nextSerial ≤ w'.nextSerial := by
  have hle : w.nextSerial ≤ w.received := by
    unfold World.nextSerial
    split
    · next serial bytes h => exact le_of_lt (hn serial bytes h)
    · exact le_refl _
  -- only the reader's own steps touch what it holds
  have hkeep : ∀ v : World, v.reader = w.reader → v.received = w.received →
      v.Numbered ∧ w.nextSerial ≤ v.nextSerial := by
    intro v hr hc
    refine ⟨fun serial bytes h => ?_, ?_⟩
    · rw [hc]
      exact hn serial bytes (hr ▸ h)
    · rw [World.nextSerial, World.nextSerial, hr, hc]
  have hdrop : ∀ v : World, (∀ serial bytes, v.reader ≠ .data serial bytes) →
      v.received = w.received → v.Numbered ∧ w.nextSerial ≤ v.nextSerial := by
    intro v hr hc
    refine ⟨fun serial bytes h => absurd h (hr serial bytes), ?_⟩
    have hv : v.nextSerial = w.received := by
      unfold World.nextSerial
      split
      · next serial bytes h => exact absurd h (hr serial bytes)
      · exact hc
    rw [hv]
    exact hle
  cases event with
  | readerReceives message =>
    simp only [World.step, ite_none_right_eq_some, some.injEq] at hst
    obtain ⟨-, rfl⟩ := hst
    cases message with
    | data bytes =>
      refine ⟨fun serial bytes' h => ?_, hle⟩
      simp only [World.readerReceive, Reader.data.injEq] at h ⊢
      rw [← h.1]
      exact Nat.lt_succ_self _
    | ping | close | failure =>
      exact hdrop _ (fun serial bytes h => by simp [World.readerReceive] at h) rfl
    | pong => exact hkeep _ rfl rfl
  | readerActs =>
    simp only [World.step, World.readerStep] at hst
    split at hst
    · obtain ⟨session, -, rfl⟩ := map_eq_some_iff.mp hst
      exact hdrop _ (fun serial bytes h => by simp at h) rfl
    · cases hst
      exact hdrop _ (fun serial bytes h => by simp at h) rfl
    · cases hst
      exact hdrop _ (fun serial bytes h => by simp at h) rfl
    · cases hst
    · cases hst
  | readerCancelled =>
    cases hst
    exact hdrop _ (fun serial bytes h => by simp at h) rfl
  | beginRequest call sendTimeout receiveTimeout =>
    simp only [World.step, ite_none_right_eq_some] at hst
    obtain ⟨-, hst⟩ := hst
    obtain ⟨⟨session, answer⟩, -, rfl⟩ := map_eq_some_iff.mp hst
    cases answer <;> exact hkeep _ rfl rfl
  | token call op =>
    obtain ⟨request, -, hst⟩ := bind_eq_some_iff.mp hst
    cases op with
    | receive =>
      obtain ⟨⟨session, answer⟩, -, rfl⟩ := map_eq_some_iff.mp hst
      cases answer <;> exact hkeep _ rfl rfl
    | complete | invalidate | sendText =>
      simp only [World.tokenStep, some.injEq] at hst
      subst hst
      exact hkeep _ rfl rfl
    | sendTimeout | receiveTimeout =>
      simp only [World.tokenStep, ite_none_right_eq_some, some.injEq] at hst
      obtain ⟨-, rfl⟩ := hst
      exact hkeep _ rfl rfl
    | throwAction | returnAction =>
      simp only [World.tokenStep, ite_none_left_eq_some, some.injEq] at hst
      obtain ⟨-, rfl⟩ := hst
      exact hkeep _ rfl rfl
  | closeWebSocketSession | ownerStopped | writerCancelled =>
    cases hst
    exact hkeep _ rfl rfl
  | writerTakes =>
    simp only [World.step, ite_none_right_eq_some] at hst
    obtain ⟨-, hst⟩ := hst
    split at hst <;> cases hst
    exact hkeep _ rfl rfl
  | writerChecks =>
    simp only [World.step] at hst
    split at hst
    · split at hst <;> cases hst <;> exact hkeep _ rfl rfl
    · cases hst
  | writerSent failure =>
    simp only [World.step, World.writerResult] at hst
    split at hst
    · split at hst <;> cases hst <;> exact hkeep _ rfl rfl
    · split at hst <;> cases hst <;> exact hkeep _ rfl rfl
    · cases hst
      exact hkeep _ rfl rfl
    · cases hst
    · cases hst
    · cases hst

/-! ### The invariant -/

/-- The requests are numbered in the order of their admission, and their generations with them. -/
structure TokensInvariant (w : World) : Prop where
  admission : ∀ call request, w.requests.lookup call = some request →
    request.admission < w.admissions ∧ request.generation.toNat = request.admission
  distinct : ∀ call call' request request', w.requests.lookup call = some request →
    w.requests.lookup call' = some request' → request.admission = request'.admission →
    call = call'
  delivered : ∀ delivery ∈ w.delivered, ∃ request,
    w.requests.lookup delivery.2 = some request ∧ request.generation = delivery.1.arrivedIn

/-- The frames queued and delivered are numbered in the order they were received. -/
structure FramesInvariant (w : World) : Prop where
  numbered : w.Numbered
  serials : (w.delivered.map Prod.fst ++ w.session.sessionIn).Pairwise fun a b => a.serial < b.serial
  received : ∀ frame ∈ w.delivered.map Prod.fst ++ w.session.sessionIn, frame.serial < w.nextSerial

/-- Who owns the session: the last request admitted, whose scope is open, while every earlier one
has ended with its exchange completed and read. -/
structure SessionInvariant (w : World) : Prop where
  tokens : TokensInvariant w
  frames : FramesInvariant w
  idle : ∀ g, w.session.sessionState = .idle g → w.session.sessionIn = [] ∧
    (w.admissions < 2 ^ 64 → g.toNat = w.admissions) ∧
    ∀ call request, w.requests.lookup call = some request →
      request.ended = true ∧ request.clean = true
  owner : ∀ g, w.session.sessionState.owner = some g → g.toNat + 1 = w.admissions ∧
    ∀ frame ∈ w.session.sessionIn, frame.arrivedIn = g
  holder : ∀ g, w.session.sessionState.holder = some g → ∃ call request,
    w.requests.lookup call = some request ∧ request.generation = g ∧ request.ended = false
  others : ∀ g, w.session.sessionState.holder = some g → ∀ call request,
    w.requests.lookup call = some request → request.generation ≠ g →
      request.ended = true ∧ request.clean = true
  finished : ∀ g, w.session.sessionState = .finished g → w.session.sessionIn = [] →
    ∀ call request, w.requests.lookup call = some request → request.generation = g →
      request.clean = true

theorem init_invariant (options : WebSocketSessionOptions) :
    SessionInvariant (.init options) where
  tokens := ⟨fun _ _ h => by simp [World.init] at h, fun _ _ _ _ h => by simp [World.init] at h,
    fun _ h => by simp [World.init] at h⟩
  frames := ⟨fun _ _ h => by simp [World.init] at h, by simp [World.init, newSession],
    fun _ h => by simp [World.init, newSession] at h⟩
  idle g h := by
    simp only [World.init, newSession, SessionState.idle.injEq] at h
    exact ⟨rfl, fun _ => by rw [← h]; rfl, fun _ _ h => by simp [World.init] at h⟩
  owner g h := by simp [World.init, newSession, SessionState.owner] at h
  holder g h := by simp [World.init, newSession, SessionState.holder] at h
  others g h := by simp [World.init, newSession, SessionState.holder] at h
  finished g h := by simp [World.init, newSession] at h

variable {g : Generation} {request' : Request}

theorem owner_of_holder {state : SessionState} (h : state.holder = some g) :
    state.owner = some g := by
  cases state <;> first | exact h | cases h

theorem holder_of_terminal {state : SessionState} (h : state.terminal = true) :
    state.holder = none := by
  cases state <;> first | rfl | cases h

/-- The requests of two worlds have the same tokens. -/
def SameTokens (w w' : World) : Prop :=
  ∀ call, (w'.requests.lookup call).map (fun r => (r.generation, r.admission)) =
    (w.requests.lookup call).map fun r => (r.generation, r.admission)

theorem sameTokens_of_eq (h : w'.requests = w.requests) : SameTokens w w' := by
  intro call
  rw [h]

theorem sameTokens_of_insert (h : w'.requests = w.requests.insert call request')
    (old : w.requests.lookup call = some request) (hg : request'.generation = request.generation)
    (ha : request'.admission = request.admission) : SameTokens w w' := by
  intro other
  rw [h, lookup_insert]
  split
  · next heq => rw [heq, old, map_some, map_some, hg, ha]
  · rfl

theorem SameTokens.lookup {other : ℕ} (h : SameTokens w w')
    (hnew : w'.requests.lookup other = some request') : ∃ request,
      w.requests.lookup other = some request ∧ request'.generation = request.generation ∧
        request'.admission = request.admission := by
  have heq := h other
  rw [hnew, map_some] at heq
  obtain ⟨request, hold, htoken⟩ := map_eq_some_iff.mp heq.symm
  rw [Prod.mk.injEq] at htoken
  exact ⟨request, hold, htoken.1.symm, htoken.2.symm⟩

theorem SameTokens.symm (h : SameTokens w w') : SameTokens w' w := fun call => (h call).symm

theorem TokensInvariant.of_same (hI : TokensInvariant w) (h : SameTokens w w')
    (ha : w'.admissions = w.admissions) (hd : w'.delivered = w.delivered) :
    TokensInvariant w' where
  admission other request' hnew := by
    obtain ⟨request, hold, hg, hadm⟩ := h.lookup hnew
    rw [hg, hadm, ha]
    exact hI.admission other request hold
  distinct c c' r r' hc hc' heq := by
    obtain ⟨s, hs, -, hadm⟩ := h.lookup hc
    obtain ⟨s', hs', -, hadm'⟩ := h.lookup hc'
    exact hI.distinct c c' s s' hs hs' (by rw [← hadm, ← hadm', heq])
  delivered delivery hmem := by
    rw [hd] at hmem
    obtain ⟨request, hold, hg⟩ := hI.delivered delivery hmem
    obtain ⟨request', hnew, hg', -⟩ := h.symm.lookup hold
    exact ⟨request', hnew, hg'.symm.trans hg⟩

theorem FramesInvariant.of_same (hI : FramesInvariant w) (hn : w'.Numbered)
    (hle : w.nextSerial ≤ w'.nextSerial)
    (hframes : w'.delivered.map Prod.fst ++ w'.session.sessionIn =
      w.delivered.map Prod.fst ++ w.session.sessionIn) : FramesInvariant w' where
  numbered := hn
  serials := by
    rw [hframes]
    exact hI.serials
  received frame hmem := by
    rw [hframes] at hmem
    exact lt_of_lt_of_le (hI.received frame hmem) hle

/-- A session that ends is owned by nobody, or by the request that owned it. -/
theorem SessionInvariant.of_terminal (hI : SessionInvariant w) (ht : TokensInvariant w')
    (hf : FramesInvariant w') (ha : w'.admissions = w.admissions)
    (hin : w'.session.sessionIn = w.session.sessionIn)
    (hterminal : w'.session.sessionState.terminal = true)
    (howner : w'.session.sessionState.owner = none ∨
      w'.session.sessionState.owner = w.session.sessionState.owner) : SessionInvariant w' where
  tokens := ht
  frames := hf
  idle g h := by
    rw [h] at hterminal
    cases hterminal
  owner g h := by
    rw [ha, hin]
    rcases howner with hnone | hsame
    · rw [hnone] at h
      cases h
    · exact hI.owner g (hsame ▸ h)
  holder g h := by
    rw [holder_of_terminal hterminal] at h
    cases h
  others g h := by
    rw [holder_of_terminal hterminal] at h
    cases h
  finished g h := by
    rw [h] at hterminal
    cases hterminal

/-- A step that keeps the requests keeps the invariant, if it spares the session. -/
theorem SessionInvariant.of_spare (hI : SessionInvariant w) (hn : w'.Numbered)
    (hle : w.nextSerial ≤ w'.nextSerial) (hs : Spares w.session w'.session)
    (hr : w'.requests = w.requests) (ha : w'.admissions = w.admissions)
    (hd : w'.delivered = w.delivered) : SessionInvariant w' := by
  have ht := hI.tokens.of_same (sameTokens_of_eq hr) ha hd
  have hf := hI.frames.of_same hn hle (by rw [hd, hs.1])
  rcases hs.2 with hsame | ⟨hterminal, howner⟩
  · refine ⟨ht, hf, ?_, ?_, ?_, ?_, ?_⟩
    · rw [hsame, hs.1, hr, ha]
      exact hI.idle
    · rw [hsame, hs.1, ha]
      exact hI.owner
    · rw [hsame, hr]
      exact hI.holder
    · rw [hsame, hr]
      exact hI.others
    · rw [hsame, hs.1, hr]
      exact hI.finished
  · exact hI.of_terminal ht hf ha hs.1 hterminal howner

/-- **The session invariant is kept by every step that admits at most the `2 ^ 64`th request.** -/
theorem move_invariant (hI : SessionInvariant w) (hn : w'.Numbered)
    (hle : w.nextSerial ≤ w'.nextSerial)
    (hleft : AdmissionsLeft w event) (hm : Move event w w') :
    SessionInvariant w' := by
  cases hm with
  | spare hs hr ha hd => exact hI.of_spare hn hle hs hr ha hd
  | arrive g bytes hactive hstate hqueue hnext hr ha hd =>
    have howner := hI.owner g (by rw [hactive]; rfl)
    refine ⟨hI.tokens.of_same (sameTokens_of_eq hr) ha hd, ⟨hn, ?_, ?_⟩, ?_, ?_, ?_, ?_, ?_⟩
    · -- the new frame has a later number than every frame before it
      rw [hd, hqueue, ← append_assoc, pairwise_append]
      refine ⟨hI.frames.serials, pairwise_singleton _ _, ?_⟩
      intro a ha' b hb
      rw [mem_singleton.mp hb]
      exact hI.frames.received a ha'
    · intro frame hmem
      rw [hd, hqueue, ← append_assoc, mem_append, mem_singleton] at hmem
      rcases hmem with hmem | rfl
      · exact lt_of_lt_of_le (hI.frames.received frame hmem) hle
      · exact hnext
    · intro g' h
      rw [hstate] at h
      cases h
    · intro g' h
      rw [hstate] at h
      obtain rfl : g = g' := some.inj h
      rw [ha, hqueue]
      refine ⟨howner.1, fun frame hmem => ?_⟩
      rcases mem_append.mp hmem with hmem | hmem
      · exact howner.2 frame hmem
      · rw [mem_singleton.mp hmem]
    · rw [hstate, hr, ← hactive]
      exact hI.holder
    · rw [hstate, hr, ← hactive]
      exact hI.others
    · intro g' h
      rw [hstate] at h
      cases h
  | accept call request hbegins hnew hidle hempty hstate hqueue hadm hrunning hr ha hd =>
    have hlt : w.admissions < 2 ^ 64 := by
      obtain ⟨_, _, rfl⟩ := hbegins
      exact hleft
    obtain ⟨-, hgen, hclean⟩ := hI.idle _ hidle
    have hnum : request.generation.toNat = w.admissions := hgen hlt
    have hlookup : ∀ other r, w'.requests.lookup other = some r →
        (other = call ∧ r = request) ∨ (other ≠ call ∧ w.requests.lookup other = some r) := by
      intro other r h
      rw [hr, lookup_insert] at h
      split at h
      · next heq => exact .inl ⟨heq, (some.inj h).symm⟩
      · next hne => exact .inr ⟨hne, h⟩
    refine ⟨⟨?_, ?_, ?_⟩, ?_, ?_, ?_, ?_, ?_, ?_⟩
    · intro other r h
      rw [ha]
      rcases hlookup other r h with ⟨-, rfl⟩ | ⟨-, hold⟩
      · exact ⟨by omega, by omega⟩
      · obtain ⟨hlt', heq⟩ := hI.tokens.admission other r hold
        exact ⟨by omega, heq⟩
    · intro c c' r r' hc hc' heq
      rcases hlookup c r hc with ⟨rfl, rfl⟩ | ⟨hne, hold⟩ <;>
        rcases hlookup c' r' hc' with ⟨rfl, rfl⟩ | ⟨hne', hold'⟩
      · rfl
      · have := (hI.tokens.admission c' r' hold').1
        omega
      · have := (hI.tokens.admission c r hold).1
        omega
      · exact hI.tokens.distinct c c' r r' hold hold' heq
    · intro delivery hmem
      rw [hd] at hmem
      obtain ⟨r, hold, hg⟩ := hI.tokens.delivered delivery hmem
      refine ⟨r, ?_, hg⟩
      rw [hr, lookup_insert_of_ne, hold]
      rintro rfl
      rw [hnew] at hold
      cases hold
    · exact hI.frames.of_same hn hle (by rw [hd, hqueue, hempty])
    · intro g h
      rw [hstate] at h
      cases h
    · intro g h
      rw [hstate] at h
      obtain rfl : request.generation = g := some.inj h
      rw [ha, hqueue]
      exact ⟨by omega, fun frame hmem => by cases hmem⟩
    · intro g h
      rw [hstate] at h
      obtain rfl : request.generation = g := some.inj h
      exact ⟨call, request, by rw [hr, lookup_insert_self], rfl, hrunning⟩
    · intro g h other r hr' hne
      rw [hstate] at h
      obtain rfl : request.generation = g := some.inj h
      rcases hlookup other r hr' with ⟨-, rfl⟩ | ⟨-, hold⟩
      · exact absurd rfl hne
      · exact hclean other r hold
    · intro g h
      rw [hstate] at h
      cases h
  | complete call request hold hactive hstate hqueue hr ha hd =>
    have hholder : w.session.sessionState.holder = some request.generation := by rw [hactive]; rfl
    have howner := hI.owner _ (owner_of_holder hholder)
    refine ⟨hI.tokens.of_same (sameTokens_of_insert hr hold rfl rfl) ha hd,
      hI.frames.of_same hn hle (by rw [hd, hqueue]), ?_, ?_, ?_, ?_, ?_⟩
    · intro g h
      rw [hstate] at h
      cases h
    · intro g h
      rw [hstate] at h
      obtain rfl : request.generation = g := some.inj h
      rw [ha, hqueue]
      exact howner
    · intro g h
      rw [hstate] at h
      obtain rfl : request.generation = g := some.inj h
      obtain ⟨other, r, hother, hg, hrunning⟩ := hI.holder _ hholder
      by_cases heq : other = call
      · rw [heq, hold] at hother
        refine ⟨call, { request with clean := w.session.sessionIn.isEmpty },
          by rw [hr, lookup_insert_self], rfl, ?_⟩
        rw [← some.inj hother] at hrunning
        exact hrunning
      · exact ⟨other, r, by rw [hr, lookup_insert_of_ne heq, hother], hg, hrunning⟩
    · intro g h other r hother hne
      rw [hstate] at h
      obtain rfl : request.generation = g := some.inj h
      rw [hr, lookup_insert] at hother
      split at hother
      · rw [← some.inj hother] at hne
        exact absurd rfl hne
      · exact hI.others _ hholder other r hother hne
    · intro g h hempty other r hother hg
      rw [hstate] at h
      obtain rfl : request.generation = g := SessionState.finished.inj h
      rw [hqueue] at hempty
      rw [hr, lookup_insert] at hother
      split at hother
      · rw [← some.inj hother, hempty]
        rfl
      · next hne =>
        -- no other call has this generation
        have h₁ := (hI.tokens.admission other r hother).2
        have h₂ := (hI.tokens.admission call request hold).2
        exact absurd (hI.tokens.distinct _ _ _ _ hother hold (by rw [← h₁, ← h₂, hg])) hne
  | deliver call request frame hold howned hunfinished hstate hqueue hr ha hd =>
    have howner := hI.owner _ howned
    rw [hqueue] at howner
    refine ⟨⟨?_, ?_, ?_⟩, ?_, ?_, ?_, ?_, ?_, ?_⟩
    · rw [hr, ha]
      exact hI.tokens.admission
    · rw [hr]
      exact hI.tokens.distinct
    · intro delivery hmem
      rw [hd] at hmem
      rw [hr]
      rcases mem_append.mp hmem with hmem | hmem
      · exact hI.tokens.delivered delivery hmem
      · rw [mem_singleton.mp hmem]
        exact ⟨request, hold, (howner.2 frame mem_cons_self).symm⟩
    · refine hI.frames.of_same hn hle ?_
      rw [hd, hqueue, map_append, append_assoc]
      rfl
    · intro g h
      rw [hstate] at h
      rw [h] at howned
      cases howned
    · intro g h
      rw [hstate, howned] at h
      obtain rfl : request.generation = g := some.inj h
      rw [ha]
      exact ⟨howner.1, fun frame' hmem => howner.2 frame' (mem_cons_of_mem _ hmem)⟩
    · rw [hstate, hr]
      exact hI.holder
    · rw [hstate, hr]
      exact hI.others
    · -- nothing is delivered once the exchange is finished
      intro g h
      rw [hstate] at h
      rw [h] at howned hunfinished
      exact absurd (congrArg _ (some.inj howned)) hunfinished
  | release call request hold hrunning hfinished hempty hstate hqueue hr ha hd =>
    have hholder : w.session.sessionState.holder = some request.generation := by
      rw [hfinished]
      rfl
    have howner := hI.owner _ (owner_of_holder hholder)
    refine ⟨hI.tokens.of_same (sameTokens_of_insert hr hold rfl rfl) ha hd,
      hI.frames.of_same hn hle (by rw [hd, hqueue, hempty]), ?_, ?_, ?_, ?_, ?_⟩
    · intro g h
      rw [hstate] at h
      obtain rfl : request.generation + 1 = g := SessionState.idle.inj h
      refine ⟨hqueue, fun hlt => ?_, ?_⟩
      · rw [ha] at hlt
        rw [ha, ← howner.1, UInt64.toNat_add, UInt64.toNat_one]
        exact Nat.mod_eq_of_lt (by omega)
      · intro other r hother
        have hclean := hI.finished _ hfinished hempty
        rw [hr, lookup_insert] at hother
        split at hother
        · rw [← some.inj hother]
          exact ⟨rfl, hclean call request hold rfl⟩
        · next hne =>
          by_cases hg : r.generation = request.generation
          · have h₁ := (hI.tokens.admission other r hother).2
            have h₂ := (hI.tokens.admission call request hold).2
            exact absurd (hI.tokens.distinct _ _ _ _ hother hold (by rw [← h₁, ← h₂, hg])) hne
          · exact hI.others _ hholder other r hother hg
    all_goals
      intro g h
      rw [hstate] at h
      cases h
  | abandon call request hold hrunning hs hends hr ha hd =>
    have ht := hI.tokens.of_same (sameTokens_of_insert hr hold rfl rfl) ha hd
    have hf := hI.frames.of_same hn hle (by rw [hd, hs.1])
    -- a scope that is open holds the session, unless the session has ended
    have hterminal : w'.session.sessionState.terminal = true := by
      cases hw : w.session.sessionState with
      | idle g =>
        have hended := ((hI.idle g hw).2.2 call request hold).1
        rw [hrunning] at hended
        cases hended
      | active g | finished g =>
        by_cases hg : request.generation = g
        · exact hends (by rw [hw, hg]; rfl)
        · have hended := (hI.others g (by rw [hw]; rfl) call request hold hg).1
          rw [hrunning] at hended
          cases hended
      | closed owner error | poisoned error =>
        rcases hs.2 with hsame | ⟨hterminal, -⟩
        · rw [hsame, hw]
          rfl
        · exact hterminal
    refine hI.of_terminal ht hf ha hs.1 hterminal ?_
    rcases hs.2 with hsame | ⟨-, howner⟩
    · exact .inr (by rw [hsame])
    · exact howner

/-- **The invariant holds throughout a run of at most `2 ^ 64` requests.** -/
theorem session_invariant {options : WebSocketSessionOptions}
    (h : ReachableBy World.step AdmissionsLeft (.init options) w) : SessionInvariant w := by
  refine h.invariant (init_invariant options) fun w event w' hI hleft hst => ?_
  obtain ⟨hn, hle⟩ := step_numbered hI.frames.numbered hst
  exact move_invariant hI hn hle hleft (step_move hI.frames.numbered hst)

/-! ### Frames, tokens and scopes -/

/-- A request is found by its generation. -/
theorem SessionInvariant.call_eq (hI : SessionInvariant w) {call' : ℕ}
    (h : w.requests.lookup call = some request) (h' : w.requests.lookup call' = some request')
    (hg : request.generation = request'.generation) : call = call' := by
  have h₁ := (hI.tokens.admission call request h).2
  have h₂ := (hI.tokens.admission call' request' h').2
  exact hI.tokens.distinct call call' request request' h h' (by rw [← h₁, ← h₂, hg])

/-- **An exchange that ended without being completed and read has ended the session.** -/
theorem SessionInvariant.terminal_of_unclean (hI : SessionInvariant w)
    (h : w.requests.lookup call = some request) (hended : request.ended = true)
    (hunclean : request.clean = false) : w.session.sessionState.terminal = true := by
  -- while the session lives, every scope that ended did so after a clean completion
  have hlive : ∀ g, w.session.sessionState.holder = some g → False := by
    intro g hg
    by_cases heq : request.generation = g
    · obtain ⟨call', request', h', hg', hrunning⟩ := hI.holder g hg
      have hcall : call = call' := hI.call_eq h h' (heq.trans hg'.symm)
      rw [hcall, h'] at h
      rw [some.inj h, hended] at hrunning
      cases hrunning
    · have hclean := (hI.others g hg call request h heq).2
      rw [hunclean] at hclean
      cases hclean
  cases hw : w.session.sessionState with
  | idle g =>
    have hclean := ((hI.idle g hw).2.2 call request h).2
    rw [hunclean] at hclean
    cases hclean
  | active g | finished g => exact (hlive g (by rw [hw]; rfl)).elim
  | closed | poisoned => rfl

/-- A session that has ended stays so. -/
theorem terminal_of_step (hn : w.Numbered) (hst : w.step event = some w')
    (h : w.session.sessionState.terminal = true) : w'.session.sessionState.terminal = true := by
  have hspares : Spares w.session w'.session → w'.session.sessionState.terminal = true := by
    rintro ⟨-, hsame | ⟨hterminal, -⟩⟩
    · rw [hsame]
      exact h
    · exact hterminal
  cases step_move hn hst with
  | spare hs | abandon _ _ _ _ hs => exact hspares hs
  | deliver _ _ _ _ _ _ hstate =>
    rw [hstate]
    exact h
  | arrive _ _ hs | accept _ _ _ _ hs | complete _ _ _ hs | release _ _ _ _ hs =>
    rw [hs] at h
    cases h

/-- **A token whose exchange does not own the session leaves it alone.** -/
theorem tokenStep_session_of_not_owner
    (h : w.session.sessionState.owner ≠ some request.generation)
    (hst : w.tokenStep call request op = some w') : w'.session = w.session := by
  have hholder : w.session.sessionState.holder ≠ some request.generation :=
    fun hh => h (owner_of_holder hh)
  have hinvalidate : ∀ reason,
      invalidateWebSocketRequest w.session request.generation reason = w.session := by
    intro reason
    rcases invalidateWebSocketRequest_cases w.session request.generation reason with
      ⟨hh, -⟩ | ⟨-, heq⟩
    · exact absurd hh hholder
    · exact heq
  cases op with
  | complete =>
    simp only [World.tokenStep, some.injEq] at hst
    subst hst
    rcases completeWebSocketRequest_cases w.session request.generation with
      ⟨-, hs, -⟩ | ⟨-, -, heq⟩
    · exact absurd (by rw [hs]; rfl) h
    · exact heq
  | invalidate reason =>
    simp only [World.tokenStep, some.injEq] at hst
    subst hst
    exact hinvalidate reason
  | sendText bytes =>
    simp only [World.tokenStep, some.injEq] at hst
    subst hst
    simp only [queueRequestText]
    split
    · next g hs =>
      have hg : g ≠ request.generation := fun heq => h (by rw [hs, heq]; rfl)
      rw [if_neg hg]
    all_goals rfl
  | receive =>
    obtain ⟨⟨session, answer⟩, hreceive, rfl⟩ := map_eq_some_iff.mp hst
    rcases receiveWebSocketData_cases hreceive with ⟨_, _, hs, -⟩ | ⟨error, rfl, rfl⟩
    · exact absurd hs h
    · rfl
  | sendTimeout | receiveTimeout =>
    simp only [World.tokenStep, ite_none_right_eq_some, some.injEq] at hst
    obtain ⟨-, rfl⟩ := hst
    exact hinvalidate _
  | throwAction =>
    simp only [World.tokenStep, ite_none_left_eq_some, some.injEq] at hst
    obtain ⟨-, rfl⟩ := hst
    exact hinvalidate _
  | returnAction =>
    simp only [World.tokenStep, ite_none_left_eq_some, some.injEq] at hst
    obtain ⟨-, rfl⟩ := hst
    rcases finishRequest_cases w.session request.generation with
      ⟨hs, -⟩ | ⟨hh, -⟩ | ⟨-, heq⟩
    · exact absurd (by rw [hs]; rfl) hholder
    · exact absurd hh hholder
    · exact heq

/-- The session of a request is over: a later one was admitted, or it is idle again. -/
def World.Stale (w : World) (request : Request) : Prop :=
  request.admission + 1 < w.admissions ∨ ∃ g, w.session.sessionState = .idle g

theorem SessionInvariant.not_owner_of_stale (hI : SessionInvariant w)
    (h : w.requests.lookup call = some request) (hstale : w.Stale request) :
    w.session.sessionState.owner ≠ some request.generation := by
  intro howner
  rcases hstale with hlater | ⟨g, hidle⟩
  · have h₁ := (hI.owner _ howner).1
    have h₂ := (hI.tokens.admission call request h).2
    omega
  · rw [hidle] at howner
    cases howner

/-- **WebSocket frames belong to their request.**  In a run of at most `2 ^ 64` requests every frame
is delivered once, within the exchange that was active when it arrived; a request is admitted only
when no frame is queued; an exchange not completed and read ends the session for good; stale tokens
leave it alone; and who holds it has not returned. -/
theorem frames_belong_to_their_request {options : WebSocketSessionOptions}
    (h : ReachableBy World.step AdmissionsLeft (.init options) w) :
    -- each frame goes to at most one request, the one that was active when it arrived
    ((w.delivered.map fun delivery => delivery.1.serial).Nodup ∧
      (∀ frame call, (frame, call) ∈ w.delivered → ∃ request,
        w.requests.lookup call = some request ∧ request.generation = frame.arrivedIn) ∧
      (∀ event w' frame, w.step event = some w' → frame ∈ w'.session.sessionIn →
        frame ∉ w.session.sessionIn → w.session.sessionState = .active frame.arrivedIn) ∧
      ∀ call call' request request', w.requests.lookup call = some request →
        w.requests.lookup call' = some request' → request.generation = request'.generation →
        call = call') ∧
    -- a request is admitted only when no frame is queued
    (∀ call sendTimeout receiveTimeout w',
      w.step (.beginRequest call sendTimeout receiveTimeout) = some w' →
      w'.requests.lookup call ≠ none → w.session.sessionIn = []) ∧
    -- an exchange that was not completed with an empty queue ends the session
    ((∀ call request, w.requests.lookup call = some request → request.ended = true →
        request.clean = false → w.session.sessionState.terminal = true) ∧
      (w.session.sessionState.terminal = true →
        (∃ error, acquireRequest w.session = some (w.session, .error error)) ∧
        ∀ event w', w.step event = some w' → w'.session.sessionState.terminal = true)) ∧
    -- a stale token leaves the session alone
    (∀ call request op w', w.requests.lookup call = some request → w.Stale request →
      w.step (.token call op) = some w' → w'.session = w.session) ∧
    -- who holds the session has not returned
    (∀ g, w.session.sessionState = .active g ∨ w.session.sessionState = .finished g →
      ∃ call request, w.requests.lookup call = some request ∧ request.generation = g ∧
        request.ended = false) := by
  have hI := session_invariant h
  refine ⟨⟨?_, ?_, ?_, ?_⟩, ?_, ⟨?_, ?_⟩, ?_, ?_⟩
  · have hserials := (pairwise_append.mp hI.frames.serials).1
    rw [pairwise_map] at hserials
    rw [List.Nodup, pairwise_map]
    exact hserials.imp fun hlt => ne_of_lt hlt
  · exact fun frame call hmem => hI.tokens.delivered (frame, call) hmem
  · intro event w' frame hst hnew hold
    cases step_move hI.frames.numbered hst with
    | spare hs | abandon _ _ _ _ hs => exact absurd (hs.1 ▸ hnew) hold
    | arrive g bytes hactive _ hqueue =>
      rw [hqueue] at hnew
      rcases mem_append.mp hnew with hmem | hmem
      · exact absurd hmem hold
      · rw [mem_singleton.mp hmem]
        exact hactive
    | complete _ _ _ _ _ hqueue => exact absurd (hqueue ▸ hnew) hold
    | deliver _ _ _ _ _ _ _ hqueue =>
      rw [hqueue] at hold
      exact absurd (mem_cons_of_mem _ hnew) hold
    | accept _ _ _ _ _ _ _ hqueue | release _ _ _ _ _ _ _ hqueue =>
      rw [hqueue] at hnew
      cases hnew
  · exact fun call call' request request' => hI.call_eq
  · intro call sendTimeout receiveTimeout w' hst hadmitted
    simp only [World.step, ite_none_right_eq_some] at hst
    obtain ⟨hnew, hst⟩ := hst
    obtain ⟨⟨session, answer⟩, hacquire, rfl⟩ := map_eq_some_iff.mp hst
    rcases acquireRequest_cases hacquire with ⟨g, -, hin, -⟩ | ⟨error, rfl, -⟩
    · exact hin
    · exact absurd hnew hadmitted
  · exact fun call request => hI.terminal_of_unclean
  · intro hterminal
    exact ⟨acquireRequest_of_terminal hterminal,
      fun event w' hst => terminal_of_step hI.frames.numbered hst hterminal⟩
  · intro call request op w' hold hstale hst
    obtain ⟨request', hold', hst⟩ := bind_eq_some_iff.mp hst
    rw [hold] at hold'
    obtain rfl : request = request' := some.inj hold'
    exact tokenStep_session_of_not_owner (hI.not_owner_of_stale hold hstale) hst
  · rintro g (hs | hs)
    · exact hI.holder g (by rw [hs]; rfl)
    · exact hI.holder g (by rw [hs]; rfl)

/-- One exchange is answered and completed; a second one is given up with a frame still queued. -/
def abandonedRun : List Event :=
  [.beginRequest 0 none (some 5), .token 0 (.sendText [1]), .writerTakes, .writerChecks,
    .writerSent none, .readerReceives (.data [2]), .readerActs, .token 0 .receive,
    .token 0 .complete, .token 0 .returnAction, .beginRequest 1 none (some 5),
    .readerReceives (.data [3]), .readerActs, .token 0 .complete, .token 1 .receiveTimeout,
    .token 1 .returnAction, .beginRequest 2 none none]

theorem frames_belong_to_their_request_in_abandonedRun :
    ∃ w, ReachableBy World.step AdmissionsLeft (.init defaultWebSocketSessionOptions) w ∧
      w.delivered.length = 1 ∧ w.session.sessionState.terminal = true ∧
      ∃ error, acquireRequest w.session = some (w.session, .error error) := by
  have hrun : (Machine.run (guarded AdmissionsLeft World.step)
      (.init defaultWebSocketSessionOptions) abandonedRun).any
        (fun w => w.delivered.length == 1 && w.session.sessionState.terminal) = true := by
    decide +kernel
  obtain ⟨w, hw, htest⟩ := exists_reachableBy_of_run hrun
  simp only [Bool.and_eq_true, beq_iff_eq] at htest
  have hclaim := frames_belong_to_their_request hw
  exact ⟨w, hw, htest.1, htest.2, (hclaim.2.2.1.2 htest.2).1⟩

/-- A request is admitted to an idle session without frames. -/
theorem exists_step_beginRequest (hs : w.session.sessionState = .idle g)
    (hin : w.session.sessionIn = []) (hnew : w.requests.lookup call = none) :
    ∃ w', w.step (.beginRequest call none none) = some w' ∧
      w'.session.sessionState = .active g ∧ w'.session.sessionIn = [] ∧
      w'.requests = w.requests.insert call ⟨g, none, none, w.admissions, false, false⟩ ∧
      w'.admissions = w.admissions + 1 := by
  refine ⟨{ w with
    session := { w.session with sessionState := .active g }
    requests := w.requests.insert call ⟨g, none, none, w.admissions, false, false⟩
    admissions := w.admissions + 1 }, ?_, rfl, hin, rfl, rfl⟩
  simp only [World.step, hnew, acquireRequest, hs, hin, isEmpty_nil, if_true, map_some]

/-- A token completes its active exchange. -/
theorem exists_step_complete (hs : w.session.sessionState = .active request.generation)
    (hold : w.requests.lookup call = some request) :
    ∃ w', w.step (.token call .complete) = some w' ∧
      w'.session.sessionState = .finished request.generation ∧
      w'.session.sessionIn = w.session.sessionIn ∧
      w'.requests = w.requests.insert call
        { request with clean := w.session.sessionIn.isEmpty } ∧
      w'.admissions = w.admissions := by
  refine ⟨{ w with
    session := { w.session with sessionState := .finished request.generation }
    requests := w.requests.insert call
      { request with clean := w.session.sessionIn.isEmpty } }, ?_, rfl, rfl, rfl, rfl⟩
  simp only [World.step, hold, Option.bind_some, World.tokenStep, completeWebSocketRequest,
    requestGenerationActive, hs, if_true, BEq.rfl]

/-- The scope of a completed exchange ends. -/
theorem exists_step_return (hs : w.session.sessionState = .finished g)
    (hin : w.session.sessionIn = []) (hold : w.requests.lookup call = some request)
    (hg : request.generation = g) (hrunning : request.ended = false) :
    ∃ w', w.step (.token call .returnAction) = some w' ∧
      w'.session.sessionState = .idle (g + 1) ∧ w'.session.sessionIn = [] ∧
      w'.requests = w.requests.insert call { request with ended := true } ∧
      w'.admissions = w.admissions := by
  refine ⟨w.endScope call request
    { w.session with sessionState := .idle (g + 1) }, ?_, rfl, hin, rfl, rfl⟩
  simp only [World.step, hold, Option.bind_some, World.tokenStep, finishRequest, hs, hin, hg,
    hrunning, isEmpty_nil, if_true, Bool.false_eq_true, if_false]

/-- One exchange on an idle session, completed without frames. -/
theorem exists_reachable_exchange (hs : w.session.sessionState = .idle g)
    (hin : w.session.sessionIn = []) (hnew : w.requests.lookup call = none) :
    ∃ w', Reachable World.step w w' ∧ w'.session.sessionState = .idle (g + 1) ∧
      w'.session.sessionIn = [] ∧ w'.admissions = w.admissions + 1 ∧
      (∀ other, other ≠ call → w'.requests.lookup other = w.requests.lookup other) ∧
      ∃ request, w'.requests.lookup call = some request ∧ request.generation = g ∧
        request.admission = w.admissions := by
  obtain ⟨w₁, h₁, hs₁, hin₁, hr₁, ha₁⟩ := exists_step_beginRequest hs hin hnew
  have hold₁ : w₁.requests.lookup call = some ⟨g, none, none, w.admissions, false, false⟩ := by
    rw [hr₁, lookup_insert_self]
  obtain ⟨w₂, h₂, hs₂, hin₂, hr₂, ha₂⟩ := exists_step_complete hs₁ hold₁
  have hold₂ : w₂.requests.lookup call = some ⟨g, none, none, w.admissions, false, true⟩ := by
    rw [hr₂, lookup_insert_self, hin₁]
    rfl
  obtain ⟨w₃, h₃, hs₃, hin₃, hr₃, ha₃⟩ := exists_step_return hs₂ (hin₂.trans hin₁) hold₂ rfl rfl
  refine ⟨w₃, ((ReachableBy.refl.tail trivial h₁).tail trivial h₂).tail trivial h₃, hs₃, hin₃,
    ?_, fun other hne => ?_, ⟨g, none, none, w.admissions, true, true⟩, ?_, rfl, rfl⟩
  · rw [ha₃, ha₂, ha₁]
  · rw [hr₃, lookup_insert_of_ne hne, hr₂, lookup_insert_of_ne hne, hr₁,
      lookup_insert_of_ne hne]
  · rw [hr₃, lookup_insert_self]

/-- After any number of exchanges, completed one after the other, the first token is still there and
the session is idle. -/
theorem exists_reachable_exchanges (options : WebSocketSessionOptions) (n : ℕ) :
    ∃ w, Reachable World.step (.init options) w ∧
      w.session.sessionState = .idle (UInt64.ofNat n) ∧ w.session.sessionIn = [] ∧
      w.admissions = n ∧ (∀ call ≥ n, w.requests.lookup call = none) ∧
      (0 < n → ∃ request, w.requests.lookup 0 = some request ∧ request.generation = 0 ∧
        request.admission = 0) := by
  induction n with
  | zero => exact ⟨_, .refl, rfl, rfl, rfl, fun _ _ => rfl, fun h => absurd h (lt_irrefl 0)⟩
  | succ n ih =>
    obtain ⟨w, hw, hs, hin, ha, hnew, hfirst⟩ := ih
    obtain ⟨w', hw', hs', hin', ha', hothers, request', hold', hg', hadm'⟩ :=
      exists_reachable_exchange hs hin (hnew n (le_refl n))
    refine ⟨w', hw.trans hw', ?_, hin', by rw [ha', ha], fun call hle => ?_, fun _ => ?_⟩
    · rw [hs', UInt64.ofNat_add]
      rfl
    · rw [hothers call (by omega)]
      exact hnew call (by omega)
    · by_cases hn : n = 0
      · subst hn
        exact ⟨request', hold', hg', hadm'.trans ha⟩
      · obtain ⟨request, hold, hg, hadm⟩ := hfirst (Nat.pos_of_ne_zero hn)
        exact ⟨request, by rw [hothers 0 (Ne.symm hn), hold], hg, hadm⟩

/-- **After `2 ^ 64` exchanges the first token is current again**: it completes the exchange of
another request. -/
theorem stale_token_completes_later_request :
    ∃ w w' call request, Reachable World.step (.init defaultWebSocketSessionOptions) w ∧
      w.requests.lookup call = some request ∧ w.Stale request ∧
      w.step (.token call .complete) = some w' ∧ w'.session ≠ w.session := by
  obtain ⟨w, hw, hs, hin, ha, hnew, hfirst⟩ :=
    exists_reachable_exchanges defaultWebSocketSessionOptions (2 ^ 64)
  obtain ⟨request, hold, hg, hadm⟩ := hfirst (Nat.two_pow_pos 64)
  -- the next request is given generation 0 again
  have hwrap : UInt64.ofNat (2 ^ 64) = 0 := rfl
  rw [hwrap] at hs
  obtain ⟨w₁, h₁, hs₁, -, hr₁, ha₁⟩ := exists_step_beginRequest hs hin (hnew _ (le_refl _))
  have hold₁ : w₁.requests.lookup 0 = some request := by
    rw [hr₁, lookup_insert_of_ne (Nat.two_pow_pos 64).ne, hold]
  rw [← hg] at hs₁
  obtain ⟨w₂, h₂, hs₂, -⟩ := exists_step_complete hs₁ hold₁
  refine ⟨w₁, w₂, 0, request, hw.tail trivial h₁, hold₁, .inl ?_, h₂, fun heq => ?_⟩
  · rw [hadm, ha₁, ha]
    exact Nat.succ_lt_succ (Nat.two_pow_pos 64)
  · rw [heq, hs₁] at hs₂
    cases hs₂

end WebSocket

end HaskellAgent
