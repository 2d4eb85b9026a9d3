import HaskellAgent.Loop.Events
import HaskellAgent.Responses.WireInputs
import Mathlib.Data.List.Count

/-!
# The transcript of an interrupted turn

A turn that is cancelled or fails keeps the steps that the loop has committed.  Its items are the
committed suffix without the calls that an incomplete last response has cut off, the results that
were still to be submitted, a synthetic output for every call that is left without one, and a note
if the user cancelled.

A transcript can be sent to a provider again when every call in it has one output and every output
has its call.
-/

open List

namespace List

variable {α : Type*} [BEq α] [LawfulBEq α]

/-- The answers `answers`, closed by one for each of the `calls` that has none, give every call one
answer, and every answer has its call, exactly if no answer is given twice and all are to calls. -/
theorem closed_answers_iff {calls answers : List α} (hcalls : calls.Nodup) :
    ((∀ a ∈ calls, (answers ++ calls.filter (· ∉ answers)).count a = 1) ∧
        ∀ a ∈ answers ++ calls.filter (· ∉ answers), a ∈ calls) ↔
      answers.Nodup ∧ ∀ a ∈ answers, a ∈ calls := by
  constructor
  · rintro ⟨hone, hcalled⟩
    have hsub : ∀ a ∈ answers, a ∈ calls := fun a ha => hcalled a (mem_append_left _ ha)
    refine ⟨nodup_iff_count_le_one.mpr fun a => ?_, hsub⟩
    by_cases ha : a ∈ answers
    · have hcount := hone a (hsub a ha)
      rw [count_append] at hcount
      omega
    · rw [count_eq_zero_of_not_mem ha]
      exact Nat.zero_le 1
  · rintro ⟨hnodup, hsub⟩
    constructor
    · intro a ha
      rw [count_append]
      by_cases hanswered : a ∈ answers
      · have hnone : a ∉ calls.filter (· ∉ answers) := fun hmem =>
          absurd hanswered (of_decide_eq_true (mem_filter.mp hmem).2)
        rw [count_eq_one_of_mem hnodup hanswered, count_eq_zero_of_not_mem hnone]
      · have hmem : a ∈ calls.filter (· ∉ answers) :=
          mem_filter.mpr ⟨ha, decide_eq_true hanswered⟩
        rw [count_eq_zero_of_not_mem hanswered, count_eq_one_of_mem (hcalls.filter _) hmem]
    · intro a ha
      rcases mem_append.mp ha with hanswer | hclosing
      · exact hsub a hanswer
      · exact (mem_filter.mp hclosing).1

end List

namespace HaskellAgent.Wire

/-! ### Turns and their executions -/

structure PreparedTurn where
  preparedBeforeItems : List ResponseItem
  preparedConsumedStartup : Option Text
  preparedConsumedGrokContext : Option Text
  preparedTurnInputs : List TurnInput

/-- Why a turn stopped before its final response. -/
inductive TurnAbort
  | byUser
  | byFailure (reason : Text)

inductive LoopProgress
  | noResponseCommitted
  | responseCommitted
  deriving DecidableEq

/-- Why a loop gave no answer.  An API error is kept by its text. -/
inductive LoopError
  | transport (err : Text)
  | transportAfterOutput (err : Text)
  | maxTurns (turn : TurnOutput)
  | incomplete (turn : TurnOutput)
  | noResponseId
  | unexpected (text : Text)
  | cancelled (results : List ToolCallResult)

structure LoopResult where
  finalResponseId : Text
  finalText : Option Text
  turnsUsed : ℕ
  tokenUsage : TokenUsage

/-- How a loop ended.  What is only for display is left out. -/
structure LoopExecution where
  executionState : List ResponseItem
  executionPendingInputs : List TurnInput
  executionProgress : LoopProgress
  executionResult : Except LoopError LoopResult

/-! ### The items kept -/

section Definitions

variable (enc : WireEncoding)

def inputOnlyTurnItems (prepared : PreparedTurn) : List ResponseItem :=
  turnInputsToItems enc prepared.preparedTurnInputs

/-- The items without provider-owned context. -/
def portable (items : List ResponseItem) : List ResponseItem :=
  items.filter fun item => !isModelContextItem item

def committedSuffix (prepared : PreparedTurn) (execution : LoopExecution) :
    Option (List ResponseItem) :=
  let before := prepared.preparedBeforeItems
  let after := execution.executionState
  let portableBefore := portable before
  let portableAfter := portable after
  if before.isPrefixOf after then some (after.drop before.length)
  else if portableBefore.isPrefixOf portableAfter then
    some (portableAfter.drop portableBefore.length)
  else none

section Truncated

-- whether `Aeson.decodeStrict` accepts a text
variable (decodes : Text → Bool)

def hasCompleteArguments (call : FunctionCall) : Bool :=
  call.encryptedFunctionArgs.isSome || decodes call.arguments

/-- A call of the incomplete response that has been cut off. -/
def isTruncatedCall (incompleteCalls : List Text) : ResponseItem → Bool
  | .functionCallItem call =>
      incompleteCalls.contains call.callId &&
        (call.status == some .incomplete || !hasCompleteArguments decodes call)
  | .customToolCallItem call =>
      incompleteCalls.contains call.callId && call.status == some .incomplete
  | _ => false

def dropTruncatedCalls (result : Except LoopError LoopResult) (items : List ResponseItem) :
    List ResponseItem :=
  match result with
  | .error (.incomplete turn) =>
      items.filter fun item => !isTruncatedCall decodes (turn.toolCalls.map (·.callId)) item
  | _ => items

end Truncated

/-- The calls among the items that have no output. -/
def danglingToolCalls (items : List ResponseItem) : List ToolCall :=
  (toolCalls enc items).filter fun call => call.callId ∉ answeredIds items

def abortedOutput (abort : TurnAbort) (call : ToolCall) : Text :=
  match abort with
  | .byUser =>
      "Tool `".toList ++ call.name ++ ("` was interrupted: the user cancelled the turn. " ++
        "It was not run, or was stopped before finishing and may have partially executed.").toList
  | .byFailure reason =>
      "Tool `".toList ++ call.name ++ "` was interrupted: ".toList ++ reason ++
        (". No completed result was recorded; its outcome is unknown and it may have partially " ++
          "executed.").toList

/-- The result that stands in for the one a call never got. -/
def abortedResult (abort : TurnAbort) (call : ToolCall) : ToolCallResult where
  callId := call.callId
  output := abortedOutput abort call
  callKind := call.callKind
  toolResultMode := .blocking
  toolResultImages := []
  toolResultFiles := []
  toolResultOutcome := none

def abortedToolOutput (abort : TurnAbort) (call : ToolCall) : ResponseItem :=
  toolResultToItem enc (abortedResult abort call)

def isModelOutputItem : ResponseItem → Bool
  | .messageItem message => message.role == .assistant && !isRecoveryMessage message
  | .functionCallItem _ => true
  | .customToolCallItem _ => true
  | .computerCallItem _ => true
  | .reasoningItemValue _ => true
  | _ => false

def turnAbortedNote : Text :=
  ("<turn_aborted>\nThe user interrupted the previous turn on purpose. Tool calls marked as " ++
    "interrupted were not run, or were stopped before finishing and may have partially " ++
    "executed. Do not resume the interrupted work unless the user asks for it.\n" ++
    "</turn_aborted>").toList

def abortNote (abort : TurnAbort) (retained : List ResponseItem) : List ResponseItem :=
  match abort with
  | .byUser =>
      if retained.any isModelOutputItem then
        turnInputsToItems enc [.recoveryMessage turnAbortedNote]
      else []
  | .byFailure _ => []

/-- The results that were still to be submitted. -/
def pendingResults (execution : LoopExecution) : List ToolCallResult :=
  execution.executionPendingInputs.filterMap fun
    | .completedTool result => some result
    | _ => none

variable (decodes : Text → Bool)

def interruptedTurnItems (prepared : PreparedTurn) (execution : LoopExecution)
    (abort : TurnAbort) : List ResponseItem :=
  match execution.executionProgress, committedSuffix prepared execution with
  | .responseCommitted, some committedItems =>
      let committed := dropTruncatedCalls decodes execution.executionResult committedItems
      let retained := committed ++ (pendingResults execution).map (toolResultToItem enc)
      let closed := retained ++ (danglingToolCalls enc retained).map (abortedToolOutput enc abort)
      closed ++ abortNote enc abort retained
  | _, _ => inputOnlyTurnItems enc prepared

/-! ### Replayable items -/

/-- Every call has one output, every output has its call, and what was committed is there. -/
structure ReplayableItems (result : Except LoopError LoopResult)
    (suffix items : List ResponseItem) : Prop where
  answered_once : ∀ call ∈ toolCalls enc items, (answeredIds items).count call.callId = 1
  outputs_called : ∀ id ∈ answeredIds items, ∃ call ∈ toolCalls enc items, call.callId = id
  kept_in_order : dropTruncatedCalls decodes result suffix <+: items
  none_dangling : danglingToolCalls enc items = []

/-- The ids of the calls that have been answered when the turn ends. -/
def answers (execution : LoopExecution) (suffix : List ResponseItem) : List Text :=
  answeredIds suffix ++ (pendingResults execution).map (·.callId)

/-- No call is answered twice, every answer is to a call of the suffix, and none is to a call that
has been cut off. -/
structure AnswersKept (execution : LoopExecution) (suffix : List ResponseItem) : Prop where
  once : (answers execution suffix).Nodup
  called : ∀ id ∈ answeredIds suffix, id ∈ callIds enc suffix
  kept : ∀ turn, execution.executionResult = .error (.incomplete turn) → ∀ item ∈ suffix,
    isTruncatedCall decodes (turn.toolCalls.map (·.callId)) item = true →
      ∀ call, responseItemToToolCall enc item = some call →
        call.callId ∉ answers execution suffix

end Definitions

/-! ### The committed items that are kept -/

section Results

variable {enc : WireEncoding} {decodes : Text → Bool}

theorem outputCallId_of_truncated {ids : List Text} {item : ResponseItem}
    (h : isTruncatedCall decodes ids item = true) : outputCallId item = [] := by
  cases item with
  | functionCallItem | customToolCallItem => rfl
  | _ => cases h

/-- Only calls are cut off. -/
theorem answeredIds_dropTruncatedCalls (result : Except LoopError LoopResult)
    (items : List ResponseItem) :
    answeredIds (dropTruncatedCalls decodes result items) = answeredIds items := by
  unfold dropTruncatedCalls
  split
  · next turn =>
    induction items with
    | nil => rfl
    | cons item rest ih =>
      rw [filter_cons]
      split
      · simp only [answeredIds, flatMap_cons] at ih ⊢
        rw [ih]
      · next hdropped =>
        have htruncated : isTruncatedCall decodes (turn.toolCalls.map (·.callId)) item = true := by
          simpa using hdropped
        simp only [answeredIds, flatMap_cons] at ih ⊢
        rw [ih, outputCallId_of_truncated htruncated, nil_append]
  · rfl

theorem dropTruncatedCalls_sublist (result : Except LoopError LoopResult)
    (items : List ResponseItem) : (dropTruncatedCalls decodes result items).Sublist items := by
  unfold dropTruncatedCalls
  split
  · exact filter_sublist
  · exact List.Sublist.refl items

theorem callIds_dropTruncatedCalls_sublist (result : Except LoopError LoopResult)
    (items : List ResponseItem) :
    (callIds enc (dropTruncatedCalls decodes result items)).Sublist (callIds enc items) :=
  ((dropTruncatedCalls_sublist result items).filterMap _).map _

variable {suffix : List ResponseItem} {items : List ResponseItem}

theorem mem_dropTruncatedCalls {result : Except LoopError LoopResult}
    {item : ResponseItem} : item ∈ dropTruncatedCalls decodes result items ↔
      item ∈ items ∧ ∀ turn, result = .error (.incomplete turn) →
        isTruncatedCall decodes (turn.toolCalls.map (·.callId)) item = false := by
  unfold dropTruncatedCalls
  split
  · next turn =>
    rw [mem_filter]
    constructor
    · rintro ⟨hmem, hkept⟩
      refine ⟨hmem, fun other hother => ?_⟩
      cases hother
      simpa using hkept
    · rintro ⟨hmem, hkept⟩
      exact ⟨hmem, by simpa using hkept turn rfl⟩
  · next hcomplete =>
    constructor
    · intro hmem
      exact ⟨hmem, fun turn hturn => absurd hturn (hcomplete turn)⟩
    · exact fun h => h.1

theorem callId_ne_of_distinct (hdistinct : (callIds enc items).Nodup)
    {a b : ResponseItem} (ha : a ∈ items) (hb : b ∈ items) (hne : a ≠ b) {c d : ToolCall}
    (hc : responseItemToToolCall enc a = some c) (hd : responseItemToToolCall enc b = some d) :
    c.callId ≠ d.callId := by
  induction items with
  | nil => cases ha
  | cons item rest ih =>
    rw [← singleton_append, callIds_append, nodup_append] at hdistinct
    obtain ⟨-, hrest, hdisjoint⟩ := hdistinct
    rcases mem_cons.mp ha with hfirst | ha' <;> rcases mem_cons.mp hb with hsecond | hb'
    · exact absurd (hfirst.trans hsecond.symm) hne
    · subst hfirst
      exact hdisjoint _ ((mem_callIds enc).mpr ⟨_, mem_singleton_self _, c, hc, rfl⟩) _
        ((mem_callIds enc).mpr ⟨b, hb', d, hd, rfl⟩)
    · subst hsecond
      exact (hdisjoint _ ((mem_callIds enc).mpr ⟨_, mem_singleton_self _, d, hd, rfl⟩) _
        ((mem_callIds enc).mpr ⟨a, ha', c, hc, rfl⟩)).symm
    · exact ih hrest ha' hb'

/-- With distinct ids, a call is kept unless its own item has been cut off. -/
theorem mem_callIds_dropTruncatedCalls {result : Except LoopError LoopResult}
    (hdistinct : (callIds enc items).Nodup) {id : Text} :
    id ∈ callIds enc (dropTruncatedCalls decodes result items) ↔
      id ∈ callIds enc items ∧ ∀ turn, result = .error (.incomplete turn) → ∀ item ∈ items,
        isTruncatedCall decodes (turn.toolCalls.map (·.callId)) item = true →
          ∀ call, responseItemToToolCall enc item = some call → call.callId ≠ id := by
  constructor
  · intro hkept
    refine ⟨(callIds_dropTruncatedCalls_sublist result items).subset hkept, ?_⟩
    rintro turn hturn item hitem htruncated call hcall rfl
    obtain ⟨kept, hkeptItem, other, hother, hid⟩ := (mem_callIds enc).mp hkept
    obtain ⟨hmem, hfalse⟩ := mem_dropTruncatedCalls.mp hkeptItem
    -- the kept item and the one cut off announce the same id, so they are one item
    have hsame : kept = item := by
      by_contra hne
      exact absurd hid (callId_ne_of_distinct hdistinct hmem hitem hne hother hcall)
    have hkeptFalse := hfalse turn hturn
    rw [hsame, htruncated] at hkeptFalse
    cases hkeptFalse
  · rintro ⟨hid, hkept⟩
    obtain ⟨item, hitem, call, hcall, rfl⟩ := (mem_callIds enc).mp hid
    refine (mem_callIds enc).mpr ⟨item, mem_dropTruncatedCalls.mpr ⟨hitem, ?_⟩, call, hcall, rfl⟩
    intro turn hturn
    by_contra htruncated
    exact hkept turn hturn item hitem (by simpa using htruncated) call hcall rfl

/-! ### The answers of an interrupted turn -/

theorem map_callId_danglingToolCalls (items : List ResponseItem) :
    (danglingToolCalls enc items).map (·.callId) =
      (callIds enc items).filter (· ∉ answeredIds items) := by
  rw [danglingToolCalls, callIds, List.filter_map]
  rfl

theorem answeredIds_abortedToolOutput (abort : TurnAbort) (items : List ResponseItem) :
    answeredIds ((danglingToolCalls enc items).map (abortedToolOutput enc abort)) =
      (callIds enc items).filter (· ∉ answeredIds items) := by
  have hkind : ∀ result ∈ (danglingToolCalls enc items).map (abortedResult abort),
      result.callKind ≠ .toolSearchCall := by
    intro result hresult
    obtain ⟨call, hcall, rfl⟩ := List.mem_map.mp hresult
    obtain ⟨item, -, hitem⟩ := mem_filterMap.mp (mem_filter.mp hcall).1
    exact callKind_responseItemToToolCall enc hitem
  have hids := answeredIds_map_toolResultToItem enc hkind
  rw [List.map_map, List.map_map] at hids
  rw [← map_callId_danglingToolCalls]
  exact hids

theorem callIds_abortedToolOutput (abort : TurnAbort) (calls : List ToolCall) :
    callIds enc (calls.map (abortedToolOutput enc abort)) = [] := by
  have hnone := callIds_map_toolResultToItem enc (calls.map (abortedResult abort))
  rwa [List.map_map] at hnone

theorem callIds_abortNote (abort : TurnAbort) (retained : List ResponseItem) :
    callIds enc (abortNote enc abort retained) = [] := by
  unfold abortNote
  cases abort with
  | byUser =>
    simp only
    split
    · rfl
    · rfl
  | byFailure => rfl

theorem answeredIds_abortNote (abort : TurnAbort) (retained : List ResponseItem) :
    answeredIds (abortNote enc abort retained) = [] := by
  unfold abortNote
  cases abort with
  | byUser =>
    simp only
    split
    · rfl
    · rfl
  | byFailure => rfl

variable {prepared : PreparedTurn} {execution : LoopExecution}

/-- The calls among the items kept are those of the suffix that have not been cut off. -/
theorem callIds_interruptedTurnItems (abort : TurnAbort)
    (hcommitted : execution.executionProgress = .responseCommitted)
    (hsuffix : committedSuffix prepared execution = some suffix) :
    callIds enc (interruptedTurnItems enc decodes prepared execution abort) =
      callIds enc (dropTruncatedCalls decodes execution.executionResult suffix) := by
  simp only [interruptedTurnItems, hcommitted, hsuffix, callIds_append,
    callIds_map_toolResultToItem, callIds_abortedToolOutput, callIds_abortNote, List.append_nil]

/-- The answers among the items kept are those there have been, and one for every other call. -/
theorem answeredIds_interruptedTurnItems (abort : TurnAbort)
    (hcommitted : execution.executionProgress = .responseCommitted)
    (hsuffix : committedSuffix prepared execution = some suffix)
    (hkind : ∀ result ∈ pendingResults execution, result.callKind ≠ .toolSearchCall) :
    answeredIds (interruptedTurnItems enc decodes prepared execution abort) =
      answers execution suffix ++
        (callIds enc (dropTruncatedCalls decodes execution.executionResult suffix)).filter
          (· ∉ answers execution suffix) := by
  have hretained : answeredIds (dropTruncatedCalls decodes execution.executionResult suffix ++
      (pendingResults execution).map (toolResultToItem enc)) = answers execution suffix := by
    rw [answeredIds_append, answeredIds_dropTruncatedCalls,
      answeredIds_map_toolResultToItem enc hkind, answers]
  simp only [interruptedTurnItems, hcommitted, hsuffix]
  rw [answeredIds_append, answeredIds_abortNote, List.append_nil, answeredIds_append,
    answeredIds_abortedToolOutput, hretained, callIds_append, callIds_map_toolResultToItem,
    List.append_nil]

/-- Closing the dangling calls leaves none. -/
theorem danglingToolCalls_interruptedTurnItems {abort : TurnAbort}
    (hcommitted : execution.executionProgress = .responseCommitted)
    (hsuffix : committedSuffix prepared execution = some suffix)
    (hkind : ∀ result ∈ pendingResults execution, result.callKind ≠ .toolSearchCall) :
    danglingToolCalls enc (interruptedTurnItems enc decodes prepared execution abort) = [] := by
  refine filter_eq_nil_iff.mpr fun call hcall => ?_
  have hid : call.callId ∈ callIds enc
      (interruptedTurnItems enc decodes prepared execution abort) := List.mem_map_of_mem hcall
  rw [callIds_interruptedTurnItems abort hcommitted hsuffix] at hid
  rw [answeredIds_interruptedTurnItems abort hcommitted hsuffix hkind]
  by_cases hanswered : call.callId ∈ answers execution suffix
  · simp [hanswered]
  · simp [hanswered, hid]

theorem dropTruncatedCalls_prefix {abort : TurnAbort}
    (hcommitted : execution.executionProgress = .responseCommitted)
    (hsuffix : committedSuffix prepared execution = some suffix) :
    dropTruncatedCalls decodes execution.executionResult suffix <+:
      interruptedTurnItems enc decodes prepared execution abort := by
  simp only [interruptedTurnItems, hcommitted, hsuffix, append_assoc]
  exact prefix_append _ _

/-- The answers are kept exactly if each is given once, to a call that is kept. -/
theorem answersKept_iff (hdistinct : (callIds enc suffix).Nodup)
    (hanswer : ∀ result ∈ pendingResults execution, result.callId ∈ callIds enc suffix) :
    AnswersKept enc decodes execution suffix ↔
      (answers execution suffix).Nodup ∧ ∀ id ∈ answers execution suffix,
        id ∈ callIds enc (dropTruncatedCalls decodes execution.executionResult suffix) := by
  constructor
  · rintro ⟨honce, hcalled, hkept⟩
    refine ⟨honce, fun id hid => (mem_callIds_dropTruncatedCalls hdistinct).mpr ⟨?_, ?_⟩⟩
    · rcases mem_append.mp hid with hcommitted | hpending
      · exact hcalled id hcommitted
      · obtain ⟨result, hresult, rfl⟩ := List.mem_map.mp hpending
        exact hanswer result hresult
    · rintro turn hturn item hitem htruncated call hcall rfl
      exact hkept turn hturn item hitem htruncated call hcall hid
  · rintro ⟨honce, hkept⟩
    refine ⟨honce, fun id hid => ?_, ?_⟩
    · exact (callIds_dropTruncatedCalls_sublist _ _).subset
        (hkept id (mem_append_left _ hid))
    · intro turn hturn item hitem htruncated call hcall hid
      have hsurvives := (mem_callIds_dropTruncatedCalls hdistinct).mp (hkept _ hid)
      exact hsurvives.2 turn hturn item hitem htruncated call hcall rfl

end Results

/-! ### Interrupted turns -/

/-- What was committed behind the prepared history: exactly, or up to provider-owned context. -/
inductive CommittedBehind (prepared : PreparedTurn) (execution : LoopExecution) :
    List ResponseItem → Prop
  | exact {suffix : List ResponseItem}
      (h : execution.executionState = prepared.preparedBeforeItems ++ suffix) :
      CommittedBehind prepared execution suffix
  | rebased {suffix : List ResponseItem}
      (hnot : ¬ prepared.preparedBeforeItems <+: execution.executionState)
      (h : portable execution.executionState = portable prepared.preparedBeforeItems ++ suffix) :
      CommittedBehind prepared execution suffix

theorem CommittedBehind.committedSuffix_eq {prepared : PreparedTurn} {execution : LoopExecution}
    {suffix : List ResponseItem} (h : CommittedBehind prepared execution suffix) :
    committedSuffix prepared execution = some suffix := by
  unfold committedSuffix
  cases h with
  | exact h =>
    have hheader : prepared.preparedBeforeItems.isPrefixOf execution.executionState = true :=
      isPrefixOf_iff_prefix.mpr (h ▸ prefix_append _ _)
    simp only [hheader, if_true]
    rw [h, drop_left]
  | rebased hnot h =>
    have hheader : ¬ prepared.preparedBeforeItems.isPrefixOf execution.executionState = true :=
      fun htrue => hnot (List.isPrefixOf_iff_prefix.mp htrue)
    have hportable : (portable prepared.preparedBeforeItems).isPrefixOf
        (portable execution.executionState) = true :=
      isPrefixOf_iff_prefix.mpr (h ▸ prefix_append _ _)
    simp only [hheader, Bool.false_eq_true, if_false, hportable, if_true]
    rw [h, drop_left]

/-- A result answers a call of the items: it has its id and its kind. -/
def AnswersCallOf (enc : WireEncoding) (items : List ResponseItem) (result : ToolCallResult) :
    Prop :=
  ∃ call ∈ toolCalls enc items, result.callId = call.callId ∧ result.callKind = call.callKind

/-- **The items of an interrupted turn are replayable exactly if its answers are kept**: every call
has one output and every output its call, unless the answer to a call has been given twice, was to
no call of the turn, or was to a call that is dropped for being cut off. -/
theorem interrupted_turn_replayable_iff (enc : WireEncoding) (decodes : Text → Bool)
    (prepared : PreparedTurn) (execution : LoopExecution) (abort : TurnAbort)
    (suffix : List ResponseItem)
    (hcommitted : execution.executionProgress = .responseCommitted)
    (hbehind : CommittedBehind prepared execution suffix)
    (hdistinct : (callIds enc suffix).Nodup)
    (hpending : ∀ result ∈ pendingResults execution, AnswersCallOf enc suffix result) :
    ReplayableItems enc decodes execution.executionResult suffix
        (interruptedTurnItems enc decodes prepared execution abort) ↔
      AnswersKept enc decodes execution suffix := by
  have hsuffix := hbehind.committedSuffix_eq
  have hanswer : ∀ result ∈ pendingResults execution, result.callId ∈ callIds enc suffix := by
    intro result hresult
    obtain ⟨call, hcall, hid, -⟩ := hpending result hresult
    exact hid ▸ List.mem_map_of_mem hcall
  have hkind : ∀ result ∈ pendingResults execution, result.callKind ≠ .toolSearchCall := by
    intro result hresult
    obtain ⟨call, hcall, -, hkind⟩ := hpending result hresult
    obtain ⟨item, -, hitem⟩ := mem_filterMap.mp hcall
    exact hkind ▸ callKind_responseItemToToolCall enc hitem
  have hcalls := @callIds_interruptedTurnItems enc decodes _ _ _ abort hcommitted hsuffix
  have hanswers := @answeredIds_interruptedTurnItems enc decodes _ _ _ abort hcommitted hsuffix hkind
  have hkeptDistinct : (callIds enc
      (dropTruncatedCalls decodes execution.executionResult suffix)).Nodup :=
    hdistinct.sublist (callIds_dropTruncatedCalls_sublist _ _)
  rw [answersKept_iff hdistinct hanswer, ← List.closed_answers_iff hkeptDistinct]
  constructor
  · rintro ⟨honce, hcalled, -, -⟩
    rw [hanswers] at honce hcalled
    refine ⟨fun id hid => ?_, fun id hid => ?_⟩
    · rw [← hcalls] at hid
      obtain ⟨call, hcall, rfl⟩ := List.mem_map.mp hid
      exact honce call hcall
    · obtain ⟨call, hcall, rfl⟩ := hcalled id hid
      rw [← hcalls]
      exact List.mem_map_of_mem hcall
  · rintro ⟨honce, hcalled⟩
    refine ⟨fun call hcall => ?_, fun id hid => ?_, dropTruncatedCalls_prefix hcommitted hsuffix,
      danglingToolCalls_interruptedTurnItems hcommitted hsuffix hkind⟩
    · rw [hanswers]
      exact honce _ (hcalls ▸ List.mem_map_of_mem hcall)
    · rw [hanswers] at hid
      have hcall := hcalled id hid
      rw [← hcalls] at hcall
      exact List.mem_map.mp hcall

/-- An encoding for runs on fixed inputs. -/
def exampleEncoding : WireEncoding where
  richToolResultOutput text _ _ := ['"'] ++ text ++ ['"']
  computerFunctionTextOutput text := text
  toolSearchOutputTools _ := []
  legacyComputerScreenshot _ := none
  encodeComputerCall _ := ['{', '}']
  canonicalToolName name := name
  attachmentPart _ := .plainText []

/-- The only arguments of the runs below that are JSON. -/
def exampleDecodes (text : Text) : Bool := text == ['{', '}']

def exampleCall (callId arguments : Text) (status : Option ItemStatus) (async : Option Bool) :
    ResponseItem :=
  .functionCallItem
    { itemId := none
      callId
      name := ['r', 'e', 'a', 'd']
      callNamespace := none
      provider := none
      arguments
      encryptedFunctionArgs := none
      status
      async }

def exampleResult (callId : Text) : ToolCallResult where
  callId
  output := ['o', 'k']
  callKind := .functionCall
  toolResultMode := .async
  toolResultImages := []
  toolResultFiles := []
  toolResultOutcome := some .succeeded

def exampleTurn (callIds : List Text) : TurnOutput where
  responseId := ['r']
  toolCalls := callIds.map fun callId =>
    { callId
      name := ['r', 'e', 'a', 'd']
      arguments := []
      callKind := .functionCall
      argumentsEncrypted := false
      mode := .async }
  assistantText := none
  tokenUsage := ⟨0, 0, 0⟩
  contextUsage := none
  telemetrySummary := none
  completion := .turnIncomplete "max_output_tokens".toList none

def examplePrepared : PreparedTurn where
  preparedBeforeItems := [userMessageItem ['h', 'i']]
  preparedConsumedStartup := none
  preparedConsumedGrokContext := none
  preparedTurnInputs := [.userMessage ['g', 'o']]

/-- A loop that a response with the given calls ended before it was complete. -/
def exampleExecution (calls : List ResponseItem) (callIds : List Text)
    (results : List ToolCallResult) : LoopExecution where
  executionState := [userMessageItem ['h', 'i']] ++ ([userMessageItem ['g', 'o']] ++ calls)
  executionPendingInputs := results.map .completedTool
  executionProgress := .responseCommitted
  executionResult := .error (.incomplete (exampleTurn callIds))

/-- One call has run, one was cut off, and one was never started. -/
def exampleCalls : List ResponseItem :=
  [exampleCall ['a'] ['{', '}'] (some .completed) (some true),
    exampleCall ['b'] ['{'] (some .incomplete) none,
    exampleCall ['c'] ['{', '}'] (some .completed) none]

def exampleIncomplete : LoopExecution :=
  exampleExecution exampleCalls [['a'], ['b'], ['c']] [exampleResult ['a']]

/-- A call whose arguments are no JSON has run, and its result is still to be submitted. -/
def exampleMalformed : LoopExecution :=
  exampleExecution [exampleCall ['a'] ['{'] (some .completed) (some true)] [['a']]
    [exampleResult ['a']]

def exampleAbort : TurnAbort := .byFailure "the response was cut off".toList

theorem interrupted_turn_replayable_in_incomplete_response :
    ReplayableItems exampleEncoding exampleDecodes exampleIncomplete.executionResult
      ([userMessageItem ['g', 'o']] ++ exampleCalls)
      (interruptedTurnItems exampleEncoding exampleDecodes examplePrepared exampleIncomplete
        exampleAbort) := by
  refine (interrupted_turn_replayable_iff exampleEncoding exampleDecodes examplePrepared
    exampleIncomplete _ _ rfl (.exact rfl) (by decide) ?_).mpr ⟨by decide, by decide, ?_⟩
  · intro result hresult
    rw [mem_singleton.mp hresult]
    exact ⟨_, mem_cons_self, rfl, rfl⟩
  · intro turn hturn item hitem htruncated call hcall
    cases hturn
    revert item call
    decide

/-- The result of a call whose arguments are no JSON is left without the call: the call has run and
failed, and its result was still to be submitted when the response ended incomplete. -/
theorem truncated_call_leaves_output :
    ¬ ∀ (enc : WireEncoding) (decodes : Text → Bool) (prepared : PreparedTurn)
        (execution : LoopExecution) (abort : TurnAbort) (suffix : List ResponseItem),
      execution.executionProgress = .responseCommitted →
      CommittedBehind prepared execution suffix →
      (callIds enc suffix).Nodup →
      (∀ result ∈ pendingResults execution, AnswersCallOf enc suffix result) →
      ReplayableItems enc decodes execution.executionResult suffix
        (interruptedTurnItems enc decodes prepared execution abort) := by
  intro hall
  have hpending : ∀ result ∈ pendingResults exampleMalformed, AnswersCallOf exampleEncoding
      [userMessageItem ['g', 'o'], exampleCall ['a'] ['{'] (some .completed) (some true)]
      result := by
    intro result hresult
    rw [mem_singleton.mp hresult]
    exact ⟨_, mem_cons_self, rfl, rfl⟩
  have hreplayable := hall exampleEncoding exampleDecodes examplePrepared exampleMalformed
    exampleAbort _ rfl (.exact rfl) (by decide) hpending
  obtain ⟨call, hcall, -⟩ := hreplayable.outputs_called ['a'] (by decide)
  have hnone : toolCalls exampleEncoding (interruptedTurnItems exampleEncoding exampleDecodes
      examplePrepared exampleMalformed exampleAbort) = [] := by decide
  rw [hnone] at hcall
  cases hcall

end HaskellAgent.Wire
