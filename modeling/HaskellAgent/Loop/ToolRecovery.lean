import HaskellAgent.Lib.KeyedList
import HaskellAgent.Loop.InputItems
import Mathlib.Data.List.Infix

/-!
# Recovery of tool evidence

When a loop ends, tools may have run whose results no committed response holds.  `recoverTools`
sorts them: a call that the committed history contains is *canonical*, and its result can still be
submitted as an ordinary tool result; any other call is an *orphan*, of which a recovery note tells.
-/

open List

namespace HaskellAgent

/-! ### What the tool manager knows -/

/-- A call admitted for execution, with the result its worker recorded. -/
structure AdmittedToolCall where
  admittedCall : ToolCall
  admittedTrustedResult : Option ToolCallResult
  admissionSequence : ℕ
  /-- A worker records the result of its own call. -/
  trusted_callId : ∀ result, admittedTrustedResult = some result →
    result.callId = admittedCall.callId

/-- The part of the tool scope that outlives its workers. -/
structure ToolScope where
  /-- The elements of the map from call ids to admitted calls. -/
  asyncToolCalls : List AdmittedToolCall
  asyncToolAcknowledged : List Text
  asyncToolCommittedCalls : Text → Option ToolCall
  distinct : (asyncToolCalls.map (·.admittedCall.callId)).Nodup

structure ToolRecoveryEvidence where
  unacknowledgedTools : List (ToolCall × Option ToolCallResult)
  committedTools : Text → Option ToolCall

def readToolRecoveryEvidence (scope : ToolScope) : ToolRecoveryEvidence where
  unacknowledgedTools :=
    ((scope.asyncToolCalls.insertionSort
        (fun a b => a.admissionSequence ≤ b.admissionSequence)).map
      fun record => (record.admittedCall, record.admittedTrustedResult)).filter
        fun entry => entry.1.callId ∉ scope.asyncToolAcknowledged
  committedTools := scope.asyncToolCommittedCalls

/-! ### The note -/

/-- The evidence for one call, as the note gives it. -/
structure ToolEvidence where
  call_id : Text
  tool : Text
  arguments : Text
  outcome : Text
  output : Text

def bounded (limit : ℕ) (text : Text) : Text :=
  if text.length ≤ limit then text
  else text.take limit ++ "\n[recovery evidence truncated]".toList

/-- The derived `show` of an exit code or a session number. -/
def showInt (n : ℤ) : Text :=
  if n < 0 then ['('] ++ (toString n).toList ++ [')'] else (toString n).toList

/-- The derived `show` of an outcome. -/
def showOutcome : Option ToolOutcome → Text
  | none => "Nothing".toList
  | some .succeeded => "Just ToolSucceeded".toList
  | some .failed => "Just ToolFailed".toList
  | some .denied => "Just ToolDenied".toList
  | some .cancelled => "Just ToolCancelled".toList
  | some (.shellRunning session) => "Just (ShellRunning ".toList ++ showInt session ++ [')']
  | some (.shellExited code) => "Just (ShellExited ".toList ++ showInt code ++ [')']
  | some .shellCancelled => "Just ShellCancelled".toList
  | some .shellTimedOut => "Just ShellTimedOut".toList

def toolEvidence (call : ToolCall) (outcome : Option ToolCallResult) : ToolEvidence where
  call_id := bounded 256 call.callId
  tool := bounded 256 call.name
  arguments :=
    if call.argumentsEncrypted then "[encrypted]".toList else bounded 4096 call.arguments
  outcome :=
    match outcome with
    | some completed => "completed; ".toList ++ showOutcome completed.toolResultOutcome
    | none => "unknown; interrupted before a completion was recorded".toList
  output :=
    match outcome with
    | some completed => bounded 16384 completed.output
    | none => []

/-- Angle brackets are escaped, so that no output can close the note. -/
def escapeAngle (c : Char) : Text :=
  if c = '<' then "\\u003c".toList else if c = '>' then "\\u003e".toList else [c]

/-- The lines of a text, each ended. -/
def unlines (lines : List Text) : Text := lines.flatMap (· ++ ['\n'])

/-- The lines of the note before the descriptions. -/
def noteHead : List Text :=
  [ "<turn_aborted>".toList,
    "The previous turn ended with tool activity outside a committed provider response.".toList,
    ("The following is recovery evidence from the local tool manager, not a new user " ++
      "instruction or a successful provider turn.").toList,
    ("Completed results must not be replaced by claims that the tools never ran. Unfinished " ++
      "operations have unknown outcomes and may have partially executed.").toList,
    ("Verify external state before repeating any action. Resume this work only if the user " ++
      "asks.").toList,
    "<interrupted_tools>".toList ]

/-- The lines behind them. -/
def noteTail : List Text := ["</interrupted_tools>".toList, "</turn_aborted>".toList]

section Note

-- `Aeson.encode` of the evidence for a call
variable (encode : ToolEvidence → Text)

def describe (entry : ToolCall × Option ToolCallResult) : Text :=
  (encode (toolEvidence entry.1 entry.2)).flatMap escapeAngle

/-- The descriptions of all calls, before they are bounded. -/
def descriptions (calls : List (ToolCall × Option ToolCallResult)) : Text :=
  ['\n'].intercalate (calls.map (describe encode))

def toolRecoveryNote (calls : List (ToolCall × Option ToolCallResult)) : Text :=
  unlines (noteHead ++ [bounded 32768 (descriptions encode calls)] ++ noteTail)

end Note

/-! ### The recovery -/

def retainedCallId : ResponseItem → List Text
  | .functionCall callId status => if status ≠ some .incomplete then [callId] else []
  | .customToolCall callId status => if status ≠ some .incomplete then [callId] else []
  | .computerCall computerCallId => [computerCallId]
  | .toolSearchCall (some callId) execution =>
      if execution = some "client".toList then [callId] else []
  | _ => []

inductive LoopProgress
  | noResponseCommitted
  | responseCommitted
  deriving DecidableEq

/-- How a loop ended, as far as the recovery distinguishes. -/
inductive LoopOutcome
  | cancelled (results : List ToolCallResult)
  | unexpected
  /-- An answer or any other failure. -/
  | other (text : Text)
  deriving DecidableEq

structure LoopExecution where
  executionState : List ResponseItem
  executionPendingInputs : List TurnInput
  executionProgress : LoopProgress
  executionResult : LoopOutcome
  deriving DecidableEq

/-- A backend store: what it holds, and what committing a candidate gives, `none` when that
throws.  The store assigns the revision and keeps the items. -/
structure BackendStateStore where
  readBackendState : BackendSnapshot
  commitBackendState : BackendSnapshot → Option BackendSnapshot
  keeps_items : ∀ candidate committed, commitBackendState candidate = some committed →
    committed.backendItems = candidate.backendItems

section Recovery

variable (enc : ItemEncoding) (encode : ToolEvidence → Text) (scope : ToolScope)

/-- The call is committed exactly as it was admitted, and the history still holds it. -/
def canonical (state : List ResponseItem) (call : ToolCall) : Bool :=
  (readToolRecoveryEvidence scope).committedTools call.callId == some call &&
    (state.flatMap retainedCallId).contains call.callId

/-- The unacknowledged calls that are not canonical. -/
def orphans (state : List ResponseItem) : List (ToolCall × Option ToolCallResult) :=
  (readToolRecoveryEvidence scope).unacknowledgedTools.filter
    fun entry => !canonical scope state entry.1

/-- The pending inputs without the results of orphans. -/
def safePending (execution : LoopExecution) : List TurnInput :=
  let orphanIds := (orphans scope execution.executionState).map (·.1.callId)
  execution.executionPendingInputs.filter fun
    | .completedTool completed => !orphanIds.contains completed.callId
    | _ => true

/-- The calls whose results are pending. -/
def pendingIds (inputs : List TurnInput) : List Text :=
  inputs.filterMap fun
    | .completedTool result => some result.callId
    | _ => none

/-- The recorded result of a canonical call that is not pending. -/
def salvage (execution : LoopExecution) : ToolCall × Option ToolCallResult → Option ToolCallResult
  | (call, some result) =>
      if canonical scope execution.executionState call &&
          !(pendingIds (safePending scope execution)).contains result.callId then some result
      else none
  | (_, none) => none

def salvaged (execution : LoopExecution) : List ToolCallResult :=
  (readToolRecoveryEvidence scope).unacknowledgedTools.filterMap (salvage scope execution)

def recoveredPending (execution : LoopExecution) : List TurnInput :=
  safePending scope execution ++ (salvaged scope execution).map .completedTool

/-- The pending inputs with the note. -/
def recoveryInputs (execution : LoopExecution) : List TurnInput :=
  recoveredPending scope execution ++
    [.recoveryMessage (toolRecoveryNote encode (orphans scope execution.executionState))]

/-- A cancelled loop also reports the salvaged results. -/
def recoveredResult (execution : LoopExecution) : LoopOutcome :=
  match execution.executionResult with
  | .cancelled previous =>
      .cancelled (previous ++ (salvaged scope execution).filter
        fun completed => previous.all fun result => result.callId != completed.callId)
  | outcome => outcome

/-- The recovery checkpoint. -/
def recoveryCandidate (current : BackendSnapshot) (execution : LoopExecution) : BackendSnapshot :=
  advanceBackendSnapshot current
    (current.backendItems ++ turnInputsToItems enc (recoveryInputs encode scope execution)) none

/-- `recoverTools` of a loop whose own checkpoint is `owned`.  A commit that throws leaves the
inputs set beforehand, which `unexpectedLoopExecution` then returns. -/
def recoverTools (store : BackendStateStore) (owned : BackendSnapshot)
    (progress : LoopProgress) (execution : LoopExecution) : LoopExecution :=
  let pending := recoveredPending scope execution
  let kept := { execution with
    executionPendingInputs := pending
    executionResult := recoveredResult scope execution }
  if (orphans scope execution.executionState).isEmpty then kept
  else
    let current := store.readBackendState
    -- another writer has moved the store on, and its history is not touched
    if current ≠ owned then kept
    else
      match store.commitBackendState (recoveryCandidate enc encode scope current execution) with
      | none =>
          { executionState := owned.backendItems
            executionPendingInputs := recoveryInputs encode scope execution
            executionProgress := progress
            executionResult := .unexpected }
      | some committed =>
          { executionState := committed.backendItems
            executionPendingInputs := []
            executionProgress := .responseCommitted
            executionResult := recoveredResult scope execution }

/-! ### The evidence -/

/-- Whether an input is no tool result. -/
def isOther : TurnInput → Bool
  | .completedTool _ => false
  | _ => true

/-- The note, if there is anything to tell. -/
def recoveryNotes (execution : LoopExecution) : List TurnInput :=
  if (orphans scope execution.executionState).isEmpty then []
  else [.recoveryMessage (toolRecoveryNote encode (orphans scope execution.executionState))]

/-- `inputs` hold all evidence there is, each piece once. -/
structure EvidenceConserved (execution : LoopExecution) (inputs : List TurnInput) : Prop where
  /-- No result of an orphan is left. -/
  orphan_withdrawn : ∀ entry ∈ orphans scope execution.executionState,
    completedTools entry.1.callId inputs = []
  /-- The note tells of the orphans, in the order of admission, up to its bound. -/
  orphan_noted : orphans scope execution.executionState ≠ [] →
    ∃ note, .recoveryMessage note ∈ inputs ∧
      (descriptions encode (orphans scope execution.executionState)).take 32768 <:+: note ∧
      ∀ before entry after, orphans scope execution.executionState = before ++ entry :: after →
        (descriptions encode (before ++ [entry])).length ≤ 32768 → describe encode entry <:+: note
  /-- The result of a canonical call is there as often as it was pending, or once. -/
  canonical_once : ∀ call result,
    (call, some result) ∈ (readToolRecoveryEvidence scope).unacknowledgedTools →
    canonical scope execution.executionState call = true →
      completedTools call.callId inputs =
        if completedTools call.callId execution.executionPendingInputs = [] then [result]
        else completedTools call.callId execution.executionPendingInputs
  /-- Everything else keeps its order, before the note. -/
  others_in_order : inputs.filter isOther
    = execution.executionPendingInputs.filter isOther ++ recoveryNotes encode scope execution

variable {enc encode scope}

/-! ### Unacknowledged calls -/

/-- The unacknowledged calls are distinct. -/
theorem unacknowledged_nodup (scope : ToolScope) :
    ((readToolRecoveryEvidence scope).unacknowledgedTools.map (·.1.callId)).Nodup := by
  have hperm := (perm_insertionSort
    (fun a b : AdmittedToolCall => a.admissionSequence ≤ b.admissionSequence) scope.asyncToolCalls)
  have hsorted : ((scope.asyncToolCalls.insertionSort
      (fun a b => a.admissionSequence ≤ b.admissionSequence)).map
        (·.admittedCall.callId)).Nodup := (hperm.map _).nodup_iff.mpr scope.distinct
  refine List.Nodup.sublist (filter_sublist.map _) ?_
  rw [List.map_map]
  exact hsorted

variable {entry : ToolCall × Option ToolCallResult} {result : ToolCallResult}

/-- A recorded result carries the id of its call. -/
theorem unacknowledged_result {call : ToolCall}
    (h : (call, some result) ∈ (readToolRecoveryEvidence scope).unacknowledgedTools) :
    result.callId = call.callId := by
  obtain ⟨record, -, heq⟩ := List.mem_map.mp (mem_of_mem_filter h)
  rw [Prod.mk.injEq] at heq
  rw [← heq.1]
  exact record.trusted_callId result heq.2

/-- A canonical call has not the id of an orphan. -/
theorem canonical_not_orphan {state : List ResponseItem}
    (hmem : entry ∈ (readToolRecoveryEvidence scope).unacknowledgedTools)
    (hcan : canonical scope state entry.1 = true) :
    entry.1.callId ∉ (orphans scope state).map (·.1.callId) := by
  intro hin
  obtain ⟨other, hother, hid⟩ := List.mem_map.mp hin
  have hother' := mem_filter.mp hother
  -- ids are distinct, so an orphan with the same id is this very call
  have heq : other = entry :=
    inj_on_of_nodup_map (unacknowledged_nodup scope) hother'.1 hmem hid
  rw [heq, hcan] at hother'
  exact absurd hother'.2 (by decide)

/-! ### The pending inputs -/

/-- The filter removes the results of orphans and nothing else. -/
theorem completedTools_safePending (execution : LoopExecution) (callId : Text) :
    completedTools callId (safePending scope execution) =
      if callId ∈ (orphans scope execution.executionState).map (·.1.callId) then []
      else completedTools callId execution.executionPendingInputs := by
  unfold safePending
  induction execution.executionPendingInputs with
  | nil => split <;> rfl
  | cons input rest ih =>
    cases input with
    | completedTool result =>
      -- results of other calls do not matter, whether the filter drops them or not
      by_cases hid : result.callId = callId
      · subst hid
        split
        · next hin =>
          rw [if_pos hin] at ih
          simpa [hin] using ih
        · next hout =>
          rw [if_neg hout] at ih
          simpa [hout, completedTools] using ih
      · by_cases hin : result.callId ∈ (orphans scope execution.executionState).map (·.1.callId)
        · simpa [hin, completedTools, hid] using ih
        · simpa [hin, completedTools, hid] using ih
    | _ => simpa [completedTools] using ih

theorem mem_pendingIds {inputs : List TurnInput} {callId : Text} :
    callId ∈ pendingIds inputs ↔ completedTools callId inputs ≠ [] := by
  induction inputs with
  | nil => simp [pendingIds, completedTools]
  | cons input rest ih =>
    cases input with
    | completedTool result =>
      by_cases hid : result.callId = callId
      · simp [pendingIds, completedTools, hid]
      · have hne : callId ≠ result.callId := fun h => hid h.symm
        simpa [pendingIds, completedTools, hid, hne] using ih
    | _ => simpa [pendingIds, completedTools] using ih

theorem completedTools_map (callId : Text) (results : List ToolCallResult) :
    completedTools callId (results.map .completedTool)
      = results.filter (fun result => result.callId = callId) := by
  rw [completedTools, filterMap_map, ← filterMap_eq_filter]
  refine filterMap_congr fun result _ => ?_
  simp [Option.guard]

theorem salvage_callId {execution : LoopExecution}
    (hmem : entry ∈ (readToolRecoveryEvidence scope).unacknowledgedTools)
    (h : salvage scope execution entry = some result) : result.callId = entry.1.callId := by
  obtain ⟨call, outcome⟩ := entry
  cases outcome with
  | none => cases h
  | some recorded =>
    simp only [salvage] at h
    split at h
    · rw [Option.some.injEq] at h
      rw [← h]
      exact unacknowledged_result hmem
    · cases h

/-- What is salvaged of a call is its recorded result, if it is canonical and not pending. -/
theorem completedTools_salvaged (execution : LoopExecution)
    (hmem : entry ∈ (readToolRecoveryEvidence scope).unacknowledgedTools) :
    completedTools entry.1.callId ((salvaged scope execution).map .completedTool)
      = (salvage scope execution entry).toList := by
  have hown : ∀ e ∈ (readToolRecoveryEvidence scope).unacknowledgedTools,
      e.1.callId ≠ entry.1.callId →
      (salvage scope execution e).filter (fun result => result.callId = entry.1.callId) = none := by
    intro e he hne
    cases hs : salvage scope execution e with
    | none => rfl
    | some result =>
      have hid := salvage_callId he hs
      simp [Option.filter, hid, hne]
  rw [completedTools_map, salvaged, filter_filterMap]
  rw [KeyedList.filterMap_of_mem (unacknowledged_nodup scope) hmem hown]
  cases hs : salvage scope execution entry with
  | none => rfl
  | some result => simp [Option.filter, salvage_callId hmem hs]

/-- The results of an orphan are withdrawn. -/
theorem completedTools_recoveredPending_orphan (execution : LoopExecution)
    (hmem : entry ∈ orphans scope execution.executionState) :
    completedTools entry.1.callId (recoveredPending scope execution) = [] := by
  obtain ⟨hun, hnot⟩ := mem_filter.mp hmem
  have hsalvage : salvage scope execution entry = none := by
    obtain ⟨call, outcome⟩ := entry
    cases outcome with
    | none => rfl
    | some result => simp_all [salvage]
  rw [recoveredPending, completedTools_append, completedTools_safePending,
    if_pos (List.mem_map_of_mem hmem), completedTools_salvaged execution hun, hsalvage]
  rfl

/-- The results of a canonical call stay, or its recorded result is salvaged. -/
theorem completedTools_recoveredPending_canonical (execution : LoopExecution) {call : ToolCall}
    (hmem : (call, some result) ∈ (readToolRecoveryEvidence scope).unacknowledgedTools)
    (hcan : canonical scope execution.executionState call = true) :
    completedTools call.callId (recoveredPending scope execution) =
      if completedTools call.callId execution.executionPendingInputs = [] then [result]
      else completedTools call.callId execution.executionPendingInputs := by
  have hsafe : completedTools call.callId (safePending scope execution)
      = completedTools call.callId execution.executionPendingInputs := by
    rw [completedTools_safePending, if_neg (canonical_not_orphan hmem hcan)]
  have hid := unacknowledged_result hmem
  have hpending : (pendingIds (safePending scope execution)).contains result.callId
      = decide (completedTools call.callId execution.executionPendingInputs ≠ []) := by
    rw [contains_eq_mem, hid, ← hsafe]
    exact decide_eq_decide.mpr mem_pendingIds
  have hsalvaged := completedTools_salvaged execution hmem
  simp only [salvage, hcan, hpending] at hsalvaged
  rw [recoveredPending, completedTools_append, hsafe, hsalvaged]
  by_cases hnil : completedTools call.callId execution.executionPendingInputs = []
  · simp [hnil]
  · simp [hnil]

/-- Inputs that are no tool results are neither moved nor removed. -/
theorem filter_isOther_recoveredPending (execution : LoopExecution) :
    (recoveredPending scope execution).filter isOther
      = execution.executionPendingInputs.filter isOther := by
  have hsalvaged :
      ((salvaged scope execution).map TurnInput.completedTool).filter isOther = [] := by
    rw [filter_eq_nil_iff]
    intro input hin
    obtain ⟨result, -, rfl⟩ := List.mem_map.mp hin
    exact Bool.false_ne_true
  rw [recoveredPending, filter_append, hsalvaged, List.append_nil, safePending,
    List.filter_filter]
  refine filter_congr fun input _ => ?_
  cases input <;> rfl

end Recovery

/-! ### The note tells of the orphans -/

theorem take_prefix_bounded (limit : ℕ) (text : Text) :
    text.take limit <+: bounded limit text := by
  unfold bounded
  split
  · exact take_prefix _ _
  · exact prefix_append _ _

theorem line_infix_unlines {line : Text} {lines : List Text} (h : line ∈ lines) :
    line <:+: unlines lines := by
  obtain ⟨before, after, rfl⟩ := append_of_mem h
  refine ⟨unlines before, ['\n'] ++ unlines after, ?_⟩
  simp [unlines]

variable {encode : ToolEvidence → Text}

/-- The note holds the descriptions up to its bound. -/
theorem descriptions_infix_note (calls : List (ToolCall × Option ToolCallResult)) :
    (descriptions encode calls).take 32768 <:+: toolRecoveryNote encode calls :=
  (take_prefix_bounded 32768 _).isInfix.trans (line_infix_unlines (by simp))

theorem descriptions_append (before after : List (ToolCall × Option ToolCallResult)) :
    descriptions encode before <+: descriptions encode (before ++ after) := by
  induction before with
  | nil => exact nil_prefix
  | cons entry rest ih =>
    cases rest with
    | nil =>
      cases after with
      | nil => exact prefix_refl _
      | cons next after =>
        simp only [descriptions, cons_append, nil_append, map_cons, map_nil,
          intercalate_cons_cons, intercalate_singleton, append_assoc]
        exact prefix_append _ _
    | cons next rest =>
      simp only [descriptions, cons_append, map_cons, intercalate_cons_cons] at ih ⊢
      exact prefix_append_right_inj _ |>.mpr ih

theorem describe_suffix (before : List (ToolCall × Option ToolCallResult))
    (entry : ToolCall × Option ToolCallResult) :
    describe encode entry <:+ descriptions encode (before ++ [entry]) := by
  induction before with
  | nil => simp [descriptions]
  | cons first rest ih =>
    have hcons : ∃ head, descriptions encode (first :: rest ++ [entry])
        = head ++ descriptions encode (rest ++ [entry]) := by
      cases rest <;>
        exact ⟨describe encode first ++ ['\n'], by simp [descriptions, intercalate_cons_cons]⟩
    obtain ⟨head, hhead⟩ := hcons
    rw [hhead]
    exact ih.trans (suffix_append _ _)

/-- A call whose description ends within the bound is described in full. -/
theorem describe_infix_note {calls before after : List (ToolCall × Option ToolCallResult)}
    {entry : ToolCall × Option ToolCallResult} (hsplit : calls = before ++ entry :: after)
    (hlen : (descriptions encode (before ++ [entry])).length ≤ 32768) :
    describe encode entry <:+: toolRecoveryNote encode calls := by
  have hextends : descriptions encode (before ++ [entry]) <+: descriptions encode calls := by
    have hassoc : before ++ entry :: after = before ++ [entry] ++ after := by simp
    rw [hsplit, hassoc]
    exact descriptions_append _ _
  have htake : descriptions encode (before ++ [entry])
      <+: (descriptions encode calls).take 32768 :=
    prefix_take_iff.mpr ⟨hextends, hlen⟩
  exact (describe_suffix before entry).isInfix.trans
    (htake.isInfix.trans (descriptions_infix_note calls))

/-! ### Conservation -/

/-- The recovered inputs with the note, if there is one, conserve the evidence. -/
theorem evidenceConserved_append (scope : ToolScope) (execution : LoopExecution) :
    EvidenceConserved encode scope execution
      (recoveredPending scope execution ++ recoveryNotes encode scope execution) := by
  have hnotes : ∀ callId, completedTools callId (recoveryNotes encode scope execution) = [] := by
    intro callId
    unfold recoveryNotes
    split <;> rfl
  refine ⟨?_, ?_, ?_, ?_⟩
  · intro entry hmem
    rw [completedTools_append, hnotes, completedTools_recoveredPending_orphan execution hmem]
    rfl
  · intro hne
    refine ⟨toolRecoveryNote encode (orphans scope execution.executionState), ?_,
      descriptions_infix_note _, fun before entry after => describe_infix_note⟩
    have hempty : (orphans scope execution.executionState).isEmpty = false := by simpa using hne
    refine mem_append_right _ ?_
    simp [recoveryNotes, hempty]
  · intro call result hmem hcan
    rw [completedTools_append, hnotes, List.append_nil]
    exact completedTools_recoveredPending_canonical execution hmem hcan
  · rw [filter_append, filter_isOther_recoveredPending]
    congr 1
    unfold recoveryNotes
    split <;> rfl

/-- **Tool evidence is conserved.**  While the stored checkpoint is the loop's own, the evidence is
in the pending inputs, or, once a note was committed, in the items appended to the history, where
the output items of a call are its results.  It stays pending when there is nothing to note and
when the commit throws. -/
theorem evidence_conserved (enc : ItemEncoding) (encode : ToolEvidence → Text) (scope : ToolScope)
    (store : BackendStateStore) (owned : BackendSnapshot) (progress : LoopProgress)
    (execution : LoopExecution) (hown : store.readBackendState = owned) :
    ∃ inputs, EvidenceConserved encode scope execution inputs ∧
      (((recoverTools enc encode scope store owned progress execution).executionPendingInputs
            = inputs ∧
          (orphans scope execution.executionState = [] ∨
            store.commitBackendState (recoveryCandidate enc encode scope owned execution) = none)) ∨
        ((recoverTools enc encode scope store owned progress execution).executionPendingInputs
            = [] ∧
          (recoverTools enc encode scope store owned progress execution).executionState
            = owned.backendItems ++ turnInputsToItems enc inputs ∧
          ∀ callId, outputItems callId (turnInputsToItems enc inputs)
            = (completedTools callId inputs).map (toolResultToItem enc))) := by
  subst hown
  refine ⟨_, evidenceConserved_append scope execution, ?_⟩
  cases horphans : orphans scope execution.executionState with
  | nil =>
    left
    simp [recoverTools, recoveryNotes, horphans]
  | cons entry rest =>
    have hinputs : recoveredPending scope execution ++ recoveryNotes encode scope execution
        = recoveryInputs encode scope execution := by
      simp [recoveryNotes, recoveryInputs, horphans]
    rw [hinputs]
    cases hcommit : store.commitBackendState
        (recoveryCandidate enc encode scope store.readBackendState execution) with
    | none =>
      left
      simp [recoverTools, horphans, hcommit]
    | some committed =>
      right
      have hitems := store.keeps_items _ _ hcommit
      refine ⟨?_, ?_, fun callId => outputItems_turnInputsToItems enc callId _⟩
      · simp [recoverTools, horphans, hcommit]
      · simp only [recoverTools, horphans, hcommit, isEmpty_cons, Bool.false_eq_true,
          if_false, ne_eq, not_true_eq_false]
        exact hitems

/-! ### Examples -/

/-- The characters of a JSON string. -/
def jsonEscape (c : Char) : Text :=
  if c = '"' then ['\\', '"'] else if c = '\\' then ['\\', '\\']
  else if c = '\n' then ['\\', 'n'] else if c = '\r' then ['\\', 'r']
  else if c = '\t' then ['\\', 't']
  else if c.toNat < 32 then
    ['\\', 'u', '0', '0', Nat.digitChar (c.toNat / 16), Nat.digitChar (c.toNat % 16)]
  else [c]

def jsonField (key value : Text) : Text :=
  ['"'] ++ key ++ ['"', ':', '"'] ++ value.flatMap jsonEscape ++ ['"']

/-- `Aeson.encode` of the evidence: an object with its keys in ascending order. -/
def encodeEvidence (evidence : ToolEvidence) : Text :=
  ['\x7b'] ++ jsonField "arguments".toList evidence.arguments ++ [','] ++
    jsonField "call_id".toList evidence.call_id ++ [','] ++
    jsonField "outcome".toList evidence.outcome ++ [','] ++
    jsonField "output".toList evidence.output ++ [','] ++
    jsonField "tool".toList evidence.tool ++ ['\x7d']

/-- An encoding for tools that return text only. -/
def textEncoding : ItemEncoding where
  richToolResultOutput := fun output _ _ => ['"'] ++ output.flatMap jsonEscape ++ ['"']
  computerFunctionTextOutput := id
  toolSearchOutputTools := fun _ => []
  legacyComputerScreenshot := fun _ => none

def exampleCall (callId : Text) : ToolCall where
  callId := callId
  name := ['t']
  arguments := []
  callKind := .functionCall
  argumentsEncrypted := false
  mode := .blocking

def exampleResult (callId output : Text) : ToolCallResult where
  callId := callId
  output := output
  callKind := .functionCall
  toolResultMode := .blocking
  toolResultImages := []
  toolResultFiles := []
  toolResultOutcome := some .succeeded

/-- Two admitted calls, of which the first is finished. -/
def exampleScope (output : Text) (committed : Text → Option ToolCall) : ToolScope where
  asyncToolCalls :=
    [ ⟨exampleCall ['a'], some (exampleResult ['a'] output), 0, by
        rintro _ ⟨⟩
        rfl⟩,
      ⟨exampleCall ['Z'], none, 1, by
        rintro _ ⟨⟩⟩ ]
  asyncToolAcknowledged := []
  asyncToolCommittedCalls := committed
  distinct := show ([['a'], ['Z']] : List Text).Nodup by decide

/-- A store that commits everything. -/
def exampleStore (items : List ResponseItem) : BackendStateStore where
  readBackendState := ⟨items, 0, none, none⟩
  commitBackendState := some
  keeps_items := by
    rintro _ _ ⟨⟩
    rfl

def exampleExecution (items : List ResponseItem) (pending : List TurnInput) : LoopExecution where
  executionState := items
  executionPendingInputs := pending
  executionProgress := .responseCommitted
  executionResult := .cancelled []

/-- The first call is committed and retained. -/
def exampleCommitted (callId : Text) : Option ToolCall :=
  if callId = ['a'] then some (exampleCall ['a']) else none

theorem evidence_conserved_in_example :
    ∃ inputs, EvidenceConserved encodeEvidence (exampleScope ['x'] exampleCommitted)
        (exampleExecution [.functionCall ['a'] none] [.userMessage ['u']]) inputs ∧
      (recoverTools textEncoding encodeEvidence (exampleScope ['x'] exampleCommitted)
        (exampleStore [.functionCall ['a'] none])
        (exampleStore [.functionCall ['a'] none]).readBackendState .responseCommitted
        (exampleExecution [.functionCall ['a'] none] [.userMessage ['u']])).executionState
          = [.functionCall ['a'] none] ++ turnInputsToItems textEncoding inputs := by
  obtain ⟨inputs, hinputs, hwhere⟩ := evidence_conserved textEncoding encodeEvidence
    (exampleScope ['x'] exampleCommitted) (exampleStore [.functionCall ['a'] none]) _
    .responseCommitted (exampleExecution [.functionCall ['a'] none] [.userMessage ['u']]) rfl
  refine ⟨inputs, hinputs, ?_⟩
  rcases hwhere with ⟨-, hnone | hnone⟩ | ⟨-, hstate, -⟩
  · cases hnone
  · cases hnone
  · exact hstate

/-- Every character of the note is one of its lines or of the descriptions before the bound. -/
theorem mem_unlines {c : Char} {lines : List Text} (h : c ∈ unlines lines) :
    c = '\n' ∨ ∃ line ∈ lines, c ∈ line := by
  obtain ⟨line, hline, hc⟩ := mem_flatMap.mp h
  rcases mem_append.mp hc with hc | hc
  · exact .inr ⟨line, hline, hc⟩
  · exact .inl (mem_singleton.mp hc)

/-- A description that alone exceeds the bound is all the note tells. -/
theorem bounded_descriptions {first : ToolCall × Option ToolCallResult}
    {rest : List (ToolCall × Option ToolCallResult)}
    (hlen : 32768 < (describe encode first).length) :
    bounded 32768 (descriptions encode (first :: rest))
      = (describe encode first).take 32768 ++ "\n[recovery evidence truncated]".toList := by
  have hextends : describe encode first <+: descriptions encode (first :: rest) := by
    have happend : descriptions encode [first] <+: descriptions encode ([first] ++ rest) :=
      descriptions_append _ _
    rwa [descriptions, map_singleton, intercalate_singleton] at happend
  have hle := hextends.length_le
  rw [bounded, if_neg (by omega)]
  congr 1
  obtain ⟨tail, htail⟩ := hextends
  rw [← htail, take_append_of_le_length (by omega)]

theorem toolEvidence_example {output : Text} (hlen : output.length ≤ 16384) :
    toolEvidence (exampleCall ['a']) (some (exampleResult ['a'] output))
      = { call_id := ['a'], tool := ['t'], arguments := []
          outcome := "completed; Just ToolSucceeded".toList, output := output } := by
  have hout : bounded 16384 output = output := by rw [bounded, if_pos hlen]
  simp only [toolEvidence, exampleResult, hout]
  congr 1

/-- The evidence for the first call, before its output. -/
def exampleHead : Text :=
  ['\x7b'] ++ jsonField "arguments".toList [] ++ [','] ++ jsonField "call_id".toList ['a'] ++
    [','] ++ jsonField "outcome".toList "completed; Just ToolSucceeded".toList ++ [','] ++
    (['"'] ++ "output".toList ++ ['"', ':', '"'])

/-- The evidence behind it. -/
def exampleTail : Text :=
  ['"'] ++ ([','] ++ (jsonField "tool".toList ['t'] ++ ['\x7d']))

theorem describe_example {output : Text} (hlen : output.length ≤ 16384) :
    describe encodeEvidence (exampleCall ['a'], some (exampleResult ['a'] output))
      = exampleHead.flatMap escapeAngle ++
        output.flatMap (fun c => (jsonEscape c).flatMap escapeAngle) ++
        exampleTail.flatMap escapeAngle := by
  have hencode : ∀ outcome, encodeEvidence
      { call_id := ['a'], tool := ['t'], arguments := [], outcome := outcome, output := output }
      = ['\x7b'] ++ jsonField "arguments".toList [] ++ [','] ++ jsonField "call_id".toList ['a'] ++
        [','] ++ jsonField "outcome".toList outcome ++ [','] ++
        (['"'] ++ "output".toList ++ ['"', ':', '"']) ++ output.flatMap jsonEscape ++
        (['"'] ++ ([','] ++ (jsonField "tool".toList ['t'] ++ ['\x7d']))) := by
    intro outcome
    simp only [encodeEvidence, jsonField, append_assoc]
  rw [describe, toolEvidence_example hlen, hencode, flatMap_append, flatMap_append,
    flatMap_assoc, ← exampleHead, ← exampleTail]

/-- An angle bracket takes six characters of the note. -/
theorem flatMap_angle (n : ℕ) :
    (List.replicate n '<').flatMap (fun c => (jsonEscape c).flatMap escapeAngle)
      = (List.replicate n ['\\', 'u', '0', '0', '3', 'c']).flatten := by
  rw [List.flatMap, map_replicate]
  rfl

/-- An output that alone exceeds the bound of the note. -/
def longOutput : Text := List.replicate 16384 '<'

-- `String.toList_ofList` turns a literal into its characters, which is what `decide` can read.
theorem not_mem_noteLines : ∀ line ∈ noteHead ++ noteTail, 'Z' ∉ line := by
  unfold noteHead noteTail
  simp only [String.toList_append]
  repeat rw [String.toList_ofList]
  decide +kernel

theorem not_mem_exampleEvidence : 'Z' ∉ (exampleHead ++ exampleTail).flatMap escapeAngle := by
  unfold exampleHead exampleTail
  repeat rw [String.toList_ofList]
  decide +kernel

/-- **The note can leave calls out, and a repeated result stays repeated.**  A first call whose
description exceeds the bound leaves nothing of the second one in the committed note; and a result
that was pending twice is pending twice after the recovery. -/
theorem evidence_truncated :
    ((exampleCall ['Z'], none) ∈ orphans (exampleScope longOutput fun _ => none) [] ∧
      ∃ note, (recoverTools textEncoding encodeEvidence (exampleScope longOutput fun _ => none)
          (exampleStore []) (exampleStore []).readBackendState .responseCommitted
          (exampleExecution [] [])).executionState = [.message (.recoveryMessage note)] ∧
        'Z' ∉ note) ∧
    canonical (exampleScope ['x'] exampleCommitted) [.functionCall ['a'] none]
        (exampleCall ['a']) = true ∧
      (completedTools ['a'] (recoveredPending (exampleScope ['x'] exampleCommitted)
        (exampleExecution [.functionCall ['a'] none]
          [.completedTool (exampleResult ['a'] ['x']),
            .completedTool (exampleResult ['a'] ['x'])]))).length = 2 := by
  have horphans : orphans (exampleScope longOutput fun _ => none) []
      = [(exampleCall ['a'], some (exampleResult ['a'] longOutput)), (exampleCall ['Z'], none)] :=
    rfl
  refine ⟨⟨by rw [horphans]; simp, _, rfl, ?_⟩, by decide, by decide⟩
  intro hmem
  change 'Z' ∈ toolRecoveryNote encodeEvidence
    (orphans (exampleScope longOutput fun _ => none) []) at hmem
  rw [horphans, toolRecoveryNote] at hmem
  have houtput : longOutput.length ≤ 16384 := by rw [longOutput, length_replicate]
  have hdescribe := describe_example houtput
  rw [longOutput, flatMap_angle, ← longOutput] at hdescribe
  have hlen : 32768 < (describe encodeEvidence
      (exampleCall ['a'], some (exampleResult ['a'] longOutput))).length := by
    rw [hdescribe, length_append, length_append, length_flatten,
      map_replicate, sum_replicate_nat]
    simp only [length_cons, length_nil]
    omega
  rw [bounded_descriptions hlen] at hmem
  -- no line of the note contains the character
  rcases mem_unlines hmem with hc | ⟨line, hline, hc⟩
  · cases hc
  · simp only [mem_append, mem_singleton] at hline
    rcases hline with (hline | rfl) | hline
    · exact not_mem_noteLines line (mem_append_left _ hline) hc
    · rcases mem_append.mp hc with hc | hc
      · have hc := mem_of_mem_take hc
        rw [hdescribe, mem_append, mem_append, mem_flatten] at hc
        have hevidence := not_mem_exampleEvidence
        rw [flatMap_append, mem_append, not_or] at hevidence
        rcases hc with (hc | ⟨piece, hpiece, hc⟩) | hc
        · exact hevidence.1 hc
        · rw [eq_of_mem_replicate hpiece] at hc
          revert hc
          decide
        · exact hevidence.2 hc
      · rw [String.toList_ofList] at hc
        revert hc
        decide
    · exact not_mem_noteLines line (mem_append_right _ hline) hc

end HaskellAgent
