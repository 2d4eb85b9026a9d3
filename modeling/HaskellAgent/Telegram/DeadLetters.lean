import HaskellAgent.Telegram.PendingActions
import Mathlib.Data.List.DropRight

/-!
# Dead letters that are retried

An action that has failed for good becomes a dead letter behind those of all chats, and `/retry` of
a chat takes its last one out.  The search turns the letters behind it around.
-/

open List

namespace HaskellAgent
namespace Telegram

def takeLastDeadLetter (key : TelegramChatKey) (letters : List TelegramDeadLetter) :
    Option (TelegramDeadLetter × List TelegramDeadLetter) :=
  go [] letters.reverse
where
  go (skipped : List TelegramDeadLetter) :
      List TelegramDeadLetter → Option (TelegramDeadLetter × List TelegramDeadLetter)
    | [] => none
    | dead :: rest =>
      if dead.deadLetterChat = some key then some (dead, rest.reverse ++ skipped.reverse)
      else go (dead :: skipped) rest

def rekeyPendingAction (updateId : ℤ) : PendingChatAction → PendingChatAction
  | .deliverReply pending => .deliverReply { pending with pendingUpdateId := updateId }
  | .runPendingTurn pending => .runPendingTurn { pending with pendingTurnUpdateId := updateId }
  | .runPendingMediaTurn pending =>
    .runPendingMediaTurn { pending with pendingMediaUpdateId := updateId }
  | .leaveUnauthorizedChat pending =>
    .leaveUnauthorizedChat { pending with pendingLeaveUpdateId := updateId }

/-- The state after the command, and its answer. -/
def retryLastDeadLetter (key : TelegramChatKey) (nextUpdateId : ℤ) (state : TelegramState) :
    TelegramState × Text :=
  match takeLastDeadLetter key state.deadLetters with
  | none => (state, "There is no failed turn to retry.".toList)
  | some (dead, remaining) =>
    match dead.deadLetterAction with
    | none => ({ state with deadLetters := remaining }, "The last failure cannot be retried.".toList)
    | some action =>
      (enqueuePendingAction (rekeyPendingAction nextUpdateId action)
          { state with deadLetters := remaining },
        "Queued the last failed turn for retry.".toList)

/-! ### What a retry should do -/

/-- Nothing is taken where no letter belongs to the chat; else its last one is, and nothing else. -/
def TouchesNothingElse (key : TelegramChatKey) (letters : List TelegramDeadLetter) : Prop :=
  match takeLastDeadLetter key letters with
  | none => ∀ letter ∈ letters, letter.deadLetterChat ≠ some key
  | some (dead, remaining) => ∃ before behind, letters = before ++ dead :: behind ∧
      dead.deadLetterChat = some key ∧ (∀ letter ∈ behind, letter.deadLetterChat ≠ some key) ∧
      remaining = before ++ behind

/-- The letters behind the last one of the chat. -/
def lettersBehind (key : TelegramChatKey) (letters : List TelegramDeadLetter) :
    List TelegramDeadLetter :=
  letters.rtakeWhile (·.deadLetterChat ≠ some key)

/-- What stands behind the last letter of the chat reads the same from both ends. -/
def SameTurnedAround (key : TelegramChatKey) (letters : List TelegramDeadLetter) : Prop :=
  (∃ letter ∈ letters, letter.deadLetterChat = some key) →
    (lettersBehind key letters).reverse = lettersBehind key letters

inductive LetterEvent
  | fail (action : PendingChatAction) (err : Text) (now : Timestamp)
  | retry (key : TelegramChatKey) (nextUpdateId : ℤ)

inductive LetterObservation
  | recorded (letter : TelegramDeadLetter)
  | retried (key : TelegramChatKey) (letter : Option TelegramDeadLetter)

section Runs

variable (library : TelegramLibrary)

def letterStep (state : TelegramState) : LetterEvent → TelegramState
  | .fail action err now => (recordPendingFailure library action err now state).1
  | .retry key nextUpdateId => (retryLastDeadLetter key nextUpdateId state).1

/-- The letters that a run records and retries. -/
def observations (state : TelegramState) : List LetterEvent → List LetterObservation
  | [] => []
  | event :: events =>
    (match event with
      | .fail action err now =>
        ((recordPendingFailure library action err now state).1.deadLetters.drop
          state.deadLetters.length).map .recorded
      | .retry key _ => [.retried key ((takeLastDeadLetter key state.deadLetters).map Prod.fst)]) ++
    observations (letterStep library state event) events

/-- Every retry of the run meets the condition. -/
def RetriesSameTurnedAround (state : TelegramState) : List LetterEvent → Prop
  | [] => True
  | event :: events =>
    (∀ key nextUpdateId, event = .retry key nextUpdateId →
      SameTurnedAround key state.deadLetters) ∧
    RetriesSameTurnedAround (letterStep library state event) events

end Runs

/-- Each chat has a stack of its own, and a retry takes the letter on its top. -/
def NewestFirst (chatStacks : TelegramChatKey → List TelegramDeadLetter) :
    List LetterObservation → Prop
  | [] => True
  | .recorded letter :: rest =>
    NewestFirst (fun key =>
      if letter.deadLetterChat = some key then letter :: chatStacks key else chatStacks key) rest
  | .retried key letter :: rest =>
    letter = (chatStacks key).head? ∧
      NewestFirst (Function.update chatStacks key (chatStacks key).tail) rest

/-- The letters of a chat, the newest on top. -/
def stackOf (letters : List TelegramDeadLetter) (key : TelegramChatKey) :
    List TelegramDeadLetter :=
  (letters.filter (·.deadLetterChat = some key)).reverse

/-! ### One retry -/

variable {key : TelegramChatKey} {letters before behind : List TelegramDeadLetter}
  {dead : TelegramDeadLetter}

theorem takeLastDeadLetter_go (hbehind : ∀ letter ∈ behind, letter.deadLetterChat ≠ some key)
    (skipped rest : List TelegramDeadLetter) :
    takeLastDeadLetter.go key skipped (behind.reverse ++ rest) =
      takeLastDeadLetter.go key (behind ++ skipped) rest := by
  induction behind using List.reverseRecOn generalizing skipped with
  | nil => rfl
  | append_singleton behind letter ih =>
    rw [reverse_append, reverse_singleton, singleton_append, cons_append, takeLastDeadLetter.go,
      if_neg (hbehind letter (by simp)), ih fun other hother => hbehind other (by simp [hother]),
      append_assoc, singleton_append]

/-- The last letter of the chat is taken, and what stands behind it is turned around. -/
theorem takeLastDeadLetter_split (hdead : dead.deadLetterChat = some key)
    (hbehind : ∀ letter ∈ behind, letter.deadLetterChat ≠ some key) :
    takeLastDeadLetter key (before ++ dead :: behind) = some (dead, before ++ behind.reverse) := by
  rw [takeLastDeadLetter, reverse_append, reverse_cons, append_assoc,
    takeLastDeadLetter_go hbehind, singleton_append, takeLastDeadLetter.go, if_pos hdead,
    append_nil, reverse_reverse]

theorem takeLastDeadLetter_none (h : ∀ letter ∈ letters, letter.deadLetterChat ≠ some key) :
    takeLastDeadLetter key letters = none := by
  have hgo := takeLastDeadLetter_go h [] []
  rw [append_nil] at hgo
  rw [takeLastDeadLetter, hgo]
  rfl

theorem lettersBehind_split (hdead : dead.deadLetterChat = some key)
    (hbehind : ∀ letter ∈ behind, letter.deadLetterChat ≠ some key) :
    lettersBehind key (before ++ dead :: behind) = behind := by
  have hall : ∀ letter ∈ behind.reverse, decide (letter.deadLetterChat ≠ some key) = true :=
    fun letter hletter => decide_eq_true (hbehind letter (mem_reverse.mp hletter))
  rw [lettersBehind, rtakeWhile, reverse_append, reverse_cons, append_assoc,
    takeWhile_append_of_pos hall, singleton_append, takeWhile_cons_of_neg (by simpa), append_nil,
    reverse_reverse]

/-- The last letter of a chat, if there is one. -/
theorem split_letters (key : TelegramChatKey) (letters : List TelegramDeadLetter) :
    (∀ letter ∈ letters, letter.deadLetterChat ≠ some key) ∨
      ∃ before dead behind, letters = before ++ dead :: behind ∧ dead.deadLetterChat = some key ∧
        ∀ letter ∈ behind, letter.deadLetterChat ≠ some key := by
  induction letters with
  | nil => exact .inl (by simp)
  | cons letter letters ih =>
    rcases ih with hnone | ⟨before, dead, behind, rfl, hdead, hbehind⟩
    · by_cases hletter : letter.deadLetterChat = some key
      · exact .inr ⟨[], letter, letters, rfl, hletter, hnone⟩
      · exact .inl (forall_mem_cons.mpr ⟨hletter, hnone⟩)
    · exact .inr ⟨letter :: before, dead, behind, rfl, hdead, hbehind⟩

theorem touchesNothingElse_iff (key : TelegramChatKey) (letters : List TelegramDeadLetter) :
    TouchesNothingElse key letters ↔ SameTurnedAround key letters := by
  rcases split_letters key letters with hnone | ⟨before, dead, behind, rfl, hdead, hbehind⟩
  · rw [TouchesNothingElse, takeLastDeadLetter_none hnone]
    refine iff_of_true hnone ?_
    rintro ⟨letter, hletter, hchat⟩
    exact absurd hchat (hnone letter hletter)
  · rw [TouchesNothingElse, takeLastDeadLetter_split hdead hbehind, SameTurnedAround,
      lettersBehind_split hdead hbehind]
    constructor
    · rintro ⟨before', behind', hsplit, -, hbehind', hremaining⟩ -
      -- the letter stands in one place only
      have hsame := congrArg (lettersBehind key) hsplit
      rw [lettersBehind_split hdead hbehind, lettersBehind_split hdead hbehind'] at hsame
      subst hsame
      obtain rfl := append_cancel_right hsplit
      exact append_cancel_left hremaining
    · intro hsymmetric
      exact ⟨before, behind, rfl, hdead, hbehind, by rw [hsymmetric ⟨dead, by simp, hdead⟩]⟩

/-! ### Runs -/

variable {library : TelegramLibrary} {state : TelegramState}

theorem deadLetters_recordPendingFailure (action : PendingChatAction) (err : Text)
    (now : Timestamp) :
    (recordPendingFailure library action err now state).1.deadLetters = state.deadLetters ∨
      ∃ letter, (recordPendingFailure library action err now state).1.deadLetters =
        state.deadLetters ++ [letter] := by
  unfold recordPendingFailure
  dsimp only
  split
  · right
    cases failureReply library action err <;> exact ⟨_, rfl⟩
  · exact .inl rfl

theorem deadLetters_retryLastDeadLetter (key : TelegramChatKey) (nextUpdateId : ℤ) :
    (retryLastDeadLetter key nextUpdateId state).1.deadLetters =
      (takeLastDeadLetter key state.deadLetters).elim state.deadLetters Prod.snd := by
  unfold retryLastDeadLetter
  cases takeLastDeadLetter key state.deadLetters with
  | none => rfl
  | some taken => cases h : taken.1.deadLetterAction <;> simp [h, enqueuePendingAction]

theorem stackOf_concat (letters : List TelegramDeadLetter) (letter : TelegramDeadLetter) :
    stackOf (letters ++ [letter]) = fun key =>
      if letter.deadLetterChat = some key then letter :: stackOf letters key
      else stackOf letters key := by
  funext key
  by_cases hchat : letter.deadLetterChat = some key <;> simp [stackOf, hchat]

/-- A retry that touches nothing else takes the top of one stack. -/
theorem stackOf_taken (h : TouchesNothingElse key letters) :
    (takeLastDeadLetter key letters).map Prod.fst = (stackOf letters key).head? ∧
      stackOf ((takeLastDeadLetter key letters).elim letters Prod.snd) =
        Function.update (stackOf letters) key (stackOf letters key).tail := by
  unfold TouchesNothingElse at h
  cases htaken : takeLastDeadLetter key letters with
  | none =>
    rw [htaken] at h
    have hempty : stackOf letters key = [] := by simpa [stackOf] using h
    refine ⟨by rw [hempty]; rfl, ?_⟩
    rw [hempty]
    exact (Function.update_eq_self_iff.mpr hempty.symm).symm
  | some taken =>
    rw [htaken] at h
    obtain ⟨before, behind, rfl, hdead, hbehind, hremaining⟩ := h
    have hnone : behind.filter (·.deadLetterChat = some key) = [] := by
      simpa [filter_eq_nil_iff] using hbehind
    have hstack : stackOf (before ++ taken.1 :: behind) key = taken.1 :: stackOf before key := by
      simp [stackOf, filter_append, hdead, hnone]
    refine ⟨by rw [hstack]; rfl, funext fun other => ?_⟩
    show stackOf taken.2 other = _
    rw [hremaining, hstack, Function.update_apply]
    split
    · next heq => simp [stackOf, heq, filter_append, hnone]
    · next hne =>
      have hother : ¬ taken.1.deadLetterChat = some other := by
        rw [hdead, Option.some.injEq]
        exact fun heq => hne heq.symm
      simp [stackOf, filter_append, hother]

/-- **A retry touches nothing else exactly where what stands behind its letter reads the same from
both ends**, and in a run of such retries each chat's letters are retried newest first, each at most
once. -/
theorem retry_touches_nothing_else_iff (library : TelegramLibrary) :
    (∀ key letters, TouchesNothingElse key letters ↔ SameTurnedAround key letters) ∧
    ∀ state events, RetriesSameTurnedAround library state events →
      NewestFirst (stackOf state.deadLetters) (observations library state events) := by
  refine ⟨touchesNothingElse_iff, fun state events hruns => ?_⟩
  induction events generalizing state with
  | nil => trivial
  | cons event events ih =>
    have hrest := ih _ hruns.2
    cases event with
    | fail action err now =>
      simp only [observations, letterStep] at hrest ⊢
      rcases @deadLetters_recordPendingFailure library state action err now with
        hsame | ⟨letter, hnew⟩
      · rw [hsame] at hrest ⊢
        simpa using hrest
      · rw [hnew] at hrest ⊢
        rw [drop_left, map_singleton, singleton_append, NewestFirst, ← stackOf_concat]
        exact hrest
    | retry key nextUpdateId =>
      simp only [observations, letterStep, deadLetters_retryLastDeadLetter] at hrest ⊢
      obtain ⟨hhead, hstacks⟩ :=
        stackOf_taken ((touchesNothingElse_iff key state.deadLetters).mpr (hruns.1 _ _ rfl))
      rw [singleton_append, NewestFirst, ← hstacks]
      exact ⟨hhead, hrest⟩

/-- A letter of a chat, as the failure of a turn records it. -/
def exampleLetter (chat updateId : ℤ) : TelegramDeadLetter where
  deadLetterUpdateId := updateId
  deadLetterChat := some ⟨chat, none⟩
  deadLetterError := "failed".toList
  deadLetterFailedAt := 0
  deadLetterAction := some (.runPendingTurn ⟨updateId, updateId, ⟨chat, none⟩, ['t'], none⟩)

/-- The letters of another chat behind the one that is retried change places. -/
theorem retry_turns_other_letters_around : ¬ ∀ key letters, TouchesNothingElse key letters := by
  intro h
  have hbad := (touchesNothingElse_iff ⟨1, none⟩
    [exampleLetter 1 1, exampleLetter 2 2, exampleLetter 2 3]).mp (h _ _)
  exact absurd (hbad ⟨exampleLetter 1 1, by decide, by decide⟩) (by decide)

def exampleFailures : TelegramState :=
  { emptyTelegramState with deadLetters := [exampleLetter 1 1, exampleLetter 2 2] }

/-- With one letter behind it there is nothing to turn around. -/
theorem retry_touches_nothing_else_in_exampleFailures :
    NewestFirst (stackOf exampleFailures.deadLetters)
      (observations ⟨id, id⟩ exampleFailures [.retry ⟨1, none⟩ 3, .retry ⟨2, none⟩ 4]) := by
  have hruns : RetriesSameTurnedAround ⟨id, id⟩ exampleFailures
      [.retry ⟨1, none⟩ 3, .retry ⟨2, none⟩ 4] := by
    refine ⟨?_, ?_, trivial⟩
    · rintro _ _ ⟨⟩
      exact fun _ => by decide
    · rintro _ _ ⟨⟩
      exact fun _ => by decide
  exact (retry_touches_nothing_else_iff ⟨id, id⟩).2 _ _ hruns

end Telegram
end HaskellAgent
