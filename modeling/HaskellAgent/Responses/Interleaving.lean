import HaskellAgent.Responses.OutputStore

/-!
# Interleaving independence of stream assembly

Items are streamed in parallel: the events of one output index keep their order, those of different
indexes may come in any.  Where all item and delta events carry their index, a slot only depends on
the events of its index and the lifecycle response only on the lifecycle events, and the result only
on these two.  Events after the first terminal event are not read.
-/

open List Option FinMap

namespace HaskellAgent.Responses

variable {π : Type}

/-! ### Events by their index -/

/-- The explicit index of an item or delta event. -/
def ResponseStreamEvent.outputIndex (event : ResponseStreamEvent π) : Option ℤ :=
  match streamAction event with
  | .item explicitIndex _ _ => explicitIndex
  | .progress explicitIndex _ _ => explicitIndex
  | _ => none

/-- Item and delta events. -/
def touchesItems (event : ResponseStreamEvent π) : Bool :=
  match streamAction event with
  | .item _ _ _ => true
  | .progress _ _ _ => true
  | _ => false

def isTerminal : ResponseStreamEvent π → Bool
  | .responseCompletedEvent _ _ => true
  | .responseDoneEvent _ _ => true
  | .responseIncompleteEvent _ _ => true
  | .responseFailedEvent _ _ => true
  | .responseErrorEvent _ _ => true
  | .responseNestedErrorEvent _ _ => true
  | _ => false

/-- The events about the response as a whole. -/
def isLifecycle : ResponseStreamEvent π → Bool
  | .responseCreatedEvent _ _ => true
  | .responseInProgressEvent _ _ => true
  | .responseQueuedEvent _ _ => true
  | event => isTerminal event

/-- The part of a stream up to its first terminal event. -/
def upToTerminal : List (ResponseStreamEvent π) → List (ResponseStreamEvent π)
  | [] => []
  | event :: rest => if isTerminal event then [event] else event :: upToTerminal rest

/-- All item and delta events carry their index. -/
def Indexed (events : List (ResponseStreamEvent π)) : Prop :=
  ∀ event ∈ events, touchesItems event = true → event.outputIndex.isSome

/-- The events of an index. -/
def eventsAt (index : ℤ) (events : List (ResponseStreamEvent π)) : List (ResponseStreamEvent π) :=
  events.filter fun event => event.outputIndex = some index

variable {event : ResponseStreamEvent π}

theorem isLifecycle_of_isTerminal (h : isTerminal event = true) :
    isLifecycle event = true := by
  cases event <;> first | rfl | exact h

/-! ### One event -/

/-- An event on its slot. -/
def slotStep (slot : Option (ItemProgress π)) (event : ResponseStreamEvent π) :
    Option (ItemProgress π) :=
  match streamAction event with
  | .item _ done item => some (itemProgress done item slot)
  | .progress _ _ update => slot.map update
  | _ => slot

/-- An event on the lifecycle response. -/
def lifecycleStep (lifecycle : Option (Response π)) (event : ResponseStreamEvent π) :
    Option (Response π) :=
  match streamAction event with
  | .lifecycle response => some (match lifecycle with
      | none => response
      | some base => mergeResponseFragment base response)
  | _ => lifecycle

theorem lifecycle_applyStreamEvent (state : StreamAssemblyState π)
    (event : ResponseStreamEvent π) :
    (applyStreamEvent state event).lifecycleResponse
      = lifecycleStep state.lifecycleResponse event := by
  rw [applyStreamEvent_eq, lifecycleStep]
  cases streamAction event with
  | lifecycle response | item explicitIndex done item => rfl
  | progress explicitIndex identities update =>
    simp only [StreamAction.apply, updateResolvedProgress]
    split <;> rfl
  | ignored => rfl

theorem updateItem_some (explicit : ℤ) (done : Bool) (item : ResponseItem π)
    (state : StreamAssemblyState π) :
    updateItem (some explicit) done item state
      = { state with
          outputItems := setOutputSlot explicit
            (itemProgress done item (state.outputItems.outputSlots.lookup explicit))
            state.outputItems } :=
  rfl

theorem updateResolvedProgress_some (explicit : ℤ) (identities : List (Option ItemIdentity))
    (update : ItemProgress π → ItemProgress π) (state : StreamAssemblyState π) :
    updateResolvedProgress (some explicit) identities update state
      = { state with outputItems := adjustOutputProgress explicit update state.outputItems } :=
  rfl

/-- An event with an index changes the slot at the index only. -/
theorem lookup_applyStreamEvent (state : StreamAssemblyState π)
    (hindexed : touchesItems event = true → event.outputIndex.isSome) (index : ℤ) :
    (applyStreamEvent state event).outputItems.outputSlots.lookup index
      = if event.outputIndex = some index then
          slotStep (state.outputItems.outputSlots.lookup index) event
        else state.outputItems.outputSlots.lookup index := by
  rw [applyStreamEvent_eq]
  unfold touchesItems ResponseStreamEvent.outputIndex at hindexed
  unfold ResponseStreamEvent.outputIndex slotStep
  cases haction : streamAction event with
  | lifecycle response | ignored => rfl
  | item explicitIndex done item =>
    rw [haction] at hindexed
    obtain ⟨explicit, rfl⟩ := isSome_iff_exists.mp (hindexed rfl)
    simp only [StreamAction.apply, updateItem_some, setOutputSlot, lookup_insert,
      some.injEq]
    by_cases heq : index = explicit
    · rw [if_pos heq, if_pos heq.symm, heq]
    · rw [if_neg heq, if_neg (Ne.symm heq)]
  | progress explicitIndex identities update =>
    rw [haction] at hindexed
    obtain ⟨explicit, rfl⟩ := isSome_iff_exists.mp (hindexed rfl)
    simp only [StreamAction.apply, updateResolvedProgress_some, adjustOutputProgress,
      some.injEq]
    by_cases heq : explicit = index
    · subst heq
      rw [if_pos rfl]
      cases hslot : state.outputItems.outputSlots.lookup explicit with
      | none => exact hslot
      | some progress => exact lookup_insert_self
    · rw [if_neg heq]
      cases state.outputItems.outputSlots.lookup explicit with
      | none => rfl
      | some progress => exact lookup_insert_of_ne (Ne.symm heq)

/-! ### A stream -/

/-- **A slot after a stream is that of the events of its index.** -/
theorem lookup_foldl (index : ℤ) {events : List (ResponseStreamEvent π)} (h : Indexed events)
    (state : StreamAssemblyState π) :
    (events.foldl applyStreamEvent state).outputItems.outputSlots.lookup index
      = (eventsAt index events).foldl slotStep (state.outputItems.outputSlots.lookup index) := by
  induction events generalizing state with
  | nil => rfl
  | cons event rest ih =>
    have hrest : Indexed rest := fun other hother => h other (mem_cons_of_mem _ hother)
    have hlookup := lookup_applyStreamEvent state (h event mem_cons_self) index
    rw [foldl_cons, ih hrest, hlookup, eventsAt, eventsAt]
    -- the event is one of the index, or leaves its slot alone
    by_cases hindex : event.outputIndex = some index
    · rw [if_pos hindex, filter_cons_of_pos (by simpa using hindex), foldl_cons]
    · rw [if_neg hindex, filter_cons_of_neg (by simpa using hindex)]

theorem lifecycleStep_of_not_isLifecycle
    (h : isLifecycle event = false) (lifecycle : Option (Response π)) :
    lifecycleStep lifecycle event = lifecycle := by
  cases event with
  | responseFunctionCallArgumentsDeltaEvent delta _ _ _
  | responseCustomToolInputDeltaEvent delta _ _ _ _ => cases delta <;> rfl
  | responseReasoningSummaryTextDoneEvent _ _ index text _ => cases index <;> cases text <;> rfl
  | otherResponseStreamEvent kind _ delta _ _ index _ =>
    cases kind <;> cases delta <;> cases index <;> rfl
  | _ => first | rfl | cases h

/-- **The lifecycle response after a stream is that of the lifecycle events.** -/
theorem lifecycle_foldl (events : List (ResponseStreamEvent π)) (state : StreamAssemblyState π) :
    (events.foldl applyStreamEvent state).lifecycleResponse
      = (events.filter isLifecycle).foldl lifecycleStep state.lifecycleResponse := by
  induction events generalizing state with
  | nil => rfl
  | cons event rest ih =>
    rw [foldl_cons, ih, lifecycle_applyStreamEvent]
    -- only lifecycle events change the lifecycle response
    cases hlifecycle : isLifecycle event with
    | true => rw [filter_cons_of_pos hlifecycle, foldl_cons]
    | false =>
      rw [filter_cons_of_neg (by simp [hlifecycle]),
        lifecycleStep_of_not_isLifecycle hlifecycle]

/-- The terminal event of a stream is one of its lifecycle events that are read. -/
theorem find?_isTerminal_eq (events : List (ResponseStreamEvent π)) :
    events.find? isTerminal = ((upToTerminal events).filter isLifecycle).find? isTerminal := by
  induction events with
  | nil => rfl
  | cons event rest ih =>
    rw [upToTerminal]
    -- what follows the first terminal event is cut off
    cases hterminal : isTerminal event with
    | true =>
      have hlifecycle := isLifecycle_of_isTerminal hterminal
      simp [hterminal, hlifecycle]
    | false =>
      rw [List.find?_cons_of_neg (by simp [hterminal]), ih, if_neg (by simp)]
      cases hlifecycle : isLifecycle event with
      | true =>
        rw [filter_cons_of_pos hlifecycle, List.find?_cons_of_neg (by simp [hterminal])]
      | false => rw [filter_cons_of_neg (by simp [hlifecycle])]

/-! ### The result of a stream -/

section Result

variable {η : Type} (jsonDecodeError : Text → Text → η) (showEvent : ResponseStreamEvent π → Text)
  (config : StreamAssemblyConfig π η) (modelHint : Option Text)

/-- The result of a stream that has been read, from its state and its terminal event. -/
def conclude (state : StreamAssemblyState π) : Option (ResponseStreamEvent π) →
    Except η (Response π)
  | none => finishStreamWithoutTerminal jsonDecodeError config state
  | some event =>
      match event with
      | .responseIncompleteEvent responseValue _ =>
          if config.incompleteAsFailure then
            .error (config.classifyFailedResponse
              (responseFailure (setResponseStatus .responseIncomplete responseValue)))
          else finishStreamResponse jsonDecodeError showEvent modelHint state event
      | .responseFailedEvent _ _ =>
          .error (config.classifyFailedResponse (responseFailureFromState state))
      | .responseErrorEvent streamError _ => .error (config.classifyStreamError streamError)
      | .responseNestedErrorEvent streamError _ => .error (config.classifyStreamError streamError)
      | event => finishStreamResponse jsonDecodeError showEvent modelHint state event

theorem stepStreamResponse_of_isTerminal {event : ResponseStreamEvent π}
    (h : isTerminal event = true) (state : StreamAssemblyState π) :
    stepStreamResponse jsonDecodeError showEvent config modelHint state event
      = .streamFinished (conclude jsonDecodeError showEvent config modelHint
          (applyStreamEvent state event) (some event)) := by
  cases event with
  | responseIncompleteEvent responseValue sequenceNumber =>
    simp only [stepStreamResponse, conclude]
    split <;> rfl
  | _ => first | rfl | cases h

theorem stepStreamResponse_of_not_isTerminal {event : ResponseStreamEvent π}
    (h : isTerminal event = false) (state : StreamAssemblyState π) :
    stepStreamResponse jsonDecodeError showEvent config modelHint state event
      = .streamContinue (applyStreamEvent state event) := by
  cases event with
  | _ => first | rfl | cases h

/-- **The result of a stream is that of the part that is read.** -/
theorem buildFrom_eq_conclude (events : List (ResponseStreamEvent π))
    (state : StreamAssemblyState π) :
    buildFrom jsonDecodeError showEvent config modelHint state events
      = conclude jsonDecodeError showEvent config modelHint
          ((upToTerminal events).foldl applyStreamEvent state) (events.find? isTerminal) := by
  induction events generalizing state with
  | nil => rfl
  | cons event rest ih =>
    rw [buildFrom, upToTerminal]
    -- the terminal event is applied, and the loop ends
    cases hterminal : isTerminal event with
    | true =>
      rw [stepStreamResponse_of_isTerminal _ _ _ _ hterminal, if_pos rfl,
        List.find?_cons_of_pos hterminal]
      rfl
    | false =>
      rw [stepStreamResponse_of_not_isTerminal _ _ _ _ hterminal, if_neg (by simp),
        List.find?_cons_of_neg (by simp [hterminal])]
      exact ih (applyStreamEvent state event)

/-- The result reads the lifecycle response and the slots only. -/
theorem conclude_congr {first second : StreamAssemblyState π}
    (hlifecycle : first.lifecycleResponse = second.lifecycleResponse)
    (hslots : first.outputItems.outputSlots = second.outputItems.outputSlots)
    (terminal : Option (ResponseStreamEvent π)) :
    conclude jsonDecodeError showEvent config modelHint first terminal
      = conclude jsonDecodeError showEvent config modelHint second terminal := by
  have hfinish : ∀ event, finishStreamResponse jsonDecodeError showEvent modelHint first event
      = finishStreamResponse jsonDecodeError showEvent modelHint second event := by
    intro event
    unfold finishStreamResponse assembledTerminalOutput assembledItems
    rw [hlifecycle, hslots]
  cases terminal with
  | none =>
    unfold conclude finishStreamWithoutTerminal
    rw [hlifecycle]
  | some event =>
    unfold conclude responseFailureFromState
    rw [hlifecycle]
    simp only [hfinish]

/-- Streams that agree on the lifecycle events and on the events of every index, as far as they are
read, give the same result. -/
theorem build_eq_of_agree {first second : List (ResponseStreamEvent π)}
    (hfirst : Indexed (upToTerminal first)) (hsecond : Indexed (upToTerminal second))
    (hslots : ∀ index, eventsAt index (upToTerminal first) = eventsAt index (upToTerminal second))
    (hlifecycle : (upToTerminal first).filter isLifecycle
      = (upToTerminal second).filter isLifecycle) :
    buildStreamResponseWithModel jsonDecodeError showEvent config modelHint first
      = buildStreamResponseWithModel jsonDecodeError showEvent config modelHint second := by
  unfold buildStreamResponseWithModel
  rw [buildFrom_eq_conclude, buildFrom_eq_conclude, find?_isTerminal_eq first,
    find?_isTerminal_eq second, hlifecycle]
  -- the same terminal event concludes states with equal slots
  apply conclude_congr
  · rw [lifecycle_foldl, lifecycle_foldl, hlifecycle]
  · ext index
    rw [lookup_foldl index hfirst, lookup_foldl index hsecond, hslots]

end Result

/-! ### Streamed arguments -/

/-- A call whose arguments or input are streamed. -/
inductive StreamedCall (π : Type)
  | function (call : FunctionCall π)
  | custom (call : CustomToolCall π)

namespace StreamedCall

def item : StreamedCall π → ResponseItem π
  | .function call => .functionCallItem call
  | .custom call => .customToolCallItem call

/-- The arguments of a function call, the input of a custom call. -/
def text : StreamedCall π → Text
  | .function call => call.arguments
  | .custom call => call.input

/-- The text of an item of the same kind. -/
def textOf : StreamedCall π → ResponseItem π → Option Text
  | .function _, .functionCallItem call => some call.arguments
  | .custom _, .customToolCallItem call => some call.input
  | _, _ => none

end StreamedCall

/-- A delta of the text of a call. -/
structure CallDelta where
  value : Text
  streamItemId : Option Text
  streamCallId : Option Text
  sequenceNumber : Option ℤ

def StreamedCall.deltaEvent (index : ℤ) (delta : CallDelta) :
    StreamedCall π → ResponseStreamEvent π
  | .function _ => .responseFunctionCallArgumentsDeltaEvent (some delta.value) delta.streamItemId
      (some index) delta.sequenceNumber
  | .custom _ => .responseCustomToolInputDeltaEvent (some delta.value) delta.streamItemId
      delta.streamCallId (some index) delta.sequenceNumber

/-- The events without text that finish a streamed call: the end of its arguments or input, and,
after at least one delta, the end of the item. -/
inductive Finishes (index : ℤ) (deltas : List CallDelta) :
    StreamedCall π → ResponseStreamEvent π → Prop
  | argumentsDone (call : FunctionCall π) (functionName streamItemId : Option Text)
      (sequenceNumber : Option ℤ) : Finishes index deltas (.function call)
        (.responseFunctionCallArgumentsDoneEvent none functionName streamItemId (some index)
          sequenceNumber)
  | inputDone (call : CustomToolCall π) (streamItemId streamCallId : Option Text)
      (sequenceNumber : Option ℤ) : Finishes index deltas (.custom call)
        (.responseCustomToolInputDoneEvent none streamItemId streamCallId (some index)
          sequenceNumber)
  | functionItemDone (call next : FunctionCall π) (sequenceNumber : Option ℤ)
      (hempty : next.arguments = []) (hdeltas : deltas ≠ []) :
      Finishes index deltas (.function call)
        (.responseOutputItemDoneEvent (.functionCallItem next) (some index) sequenceNumber)
  | customItemDone (call next : CustomToolCall π) (sequenceNumber : Option ℤ)
      (hempty : next.input = []) (hdeltas : deltas ≠ []) :
      Finishes index deltas (.custom call)
        (.responseOutputItemDoneEvent (.customToolCallItem next) (some index) sequenceNumber)

/-- The progress of a call while its text is streamed: the item as it was added, and the deltas in
the buffer of its kind. -/
def StreamedCall.progress (buffer : Option TextBuffer) : StreamedCall π → ItemProgress π
  | .function call => ⟨.functionCallItem call, false, buffer, none, .empty⟩
  | .custom call => ⟨.customToolCallItem call, false, none, buffer, .empty⟩

/-- The buffer after some deltas. -/
def bufferDeltas (buffer : Option TextBuffer) (deltas : List CallDelta) : Option TextBuffer :=
  deltas.foldl (fun current delta =>
    some (appendTextBuffer delta.value (current.getD emptyTextBuffer))) buffer

variable {deltas : List CallDelta}

theorem isSome_bufferDeltas (h : deltas ≠ [])
    (buffer : Option TextBuffer) : (bufferDeltas buffer deltas).isSome := by
  induction deltas generalizing buffer with
  | nil => exact absurd rfl h
  | cons delta rest ih =>
    cases rest with
    | nil => rfl
    | cons next others => exact ih (cons_ne_nil next others) _

theorem textBufferToText_bufferDeltas (deltas : List CallDelta) (buffer : Option TextBuffer) :
    textBufferToText ((bufferDeltas buffer deltas).getD emptyTextBuffer)
      = textBufferToText (buffer.getD emptyTextBuffer) ++ (deltas.map (·.value)).flatten := by
  induction deltas generalizing buffer with
  | nil => simp [bufferDeltas]
  | cons delta rest ih =>
    have hrest := ih (some (appendTextBuffer delta.value (buffer.getD emptyTextBuffer)))
    rw [getD_some, textBufferToText_append] at hrest
    rw [map_cons, flatten_cons, ← append_assoc, ← hrest]
    rfl

/-- Deltas go to the buffer. -/
theorem foldl_deltas (index : ℤ) (call : StreamedCall π) (deltas : List CallDelta)
    (buffer : Option TextBuffer) :
    (deltas.map (call.deltaEvent index)).foldl slotStep (some (call.progress buffer))
      = some (call.progress (bufferDeltas buffer deltas)) := by
  induction deltas generalizing buffer with
  | nil => rfl
  | cons delta rest ih =>
    rw [map_cons, foldl_cons]
    cases call with
    | function call | custom call => exact ih _

/-- The buffer is materialized after the text of the item. -/
theorem textOf_materialize (call : StreamedCall π) (buffer : Option TextBuffer) :
    call.textOf (materializeItemProgress (call.progress buffer))
      = some (call.text ++ textBufferToText (buffer.getD emptyTextBuffer)) := by
  cases call with
  | function call =>
    cases buffer with
    | none => exact congrArg some (List.append_nil call.arguments).symm
    | some chunks => rfl
  | custom call =>
    cases buffer with
    | none => exact congrArg some (List.append_nil call.input).symm
    | some chunks => rfl

/-- A finishing event keeps the text that was streamed, once. -/
theorem slotStep_finish {index : ℤ} {call : StreamedCall π}
    {finish : ResponseStreamEvent π} (h : Finishes index deltas call finish)
    {buffer : Option TextBuffer} (hbuffer : deltas ≠ [] → buffer.isSome) :
    (slotStep (some (call.progress buffer)) finish).bind
        (fun progress => call.textOf (materializeItemProgress progress))
      = some (call.text ++ textBufferToText (buffer.getD emptyTextBuffer)) := by
  -- the finishing event materializes the buffer and clears it, so the text stands there once
  rw [← textOf_materialize]
  cases h with
  | argumentsDone call functionName streamItemId sequenceNumber =>
    cases buffer with
    | none | some chunks => rfl
  | inputDone call streamItemId streamCallId sequenceNumber =>
    cases buffer with
    | none | some chunks => rfl
  | functionItemDone call next sequenceNumber hempty hdeltas =>
    -- after a delta there is a buffer, which the empty text of the item does not replace
    obtain ⟨chunks, rfl⟩ := isSome_iff_exists.mp (hbuffer hdeltas)
    have hpreserved : preserveBufferedProgress
        ((StreamedCall.function call).progress (some chunks)) (.functionCallItem next)
        = .functionCallItem (setFunctionArguments (materializedFunctionArguments
            ((StreamedCall.function call).progress (some chunks))) next) := by
      simp [preserveBufferedProgress, StreamedCall.progress, hempty]
    simp only [slotStep, streamAction, itemProgress, if_true, hpreserved]
    rfl
  | customItemDone call next sequenceNumber hempty hdeltas =>
    obtain ⟨chunks, rfl⟩ := isSome_iff_exists.mp (hbuffer hdeltas)
    have hpreserved : preserveBufferedProgress
        ((StreamedCall.custom call).progress (some chunks)) (.customToolCallItem next)
        = .customToolCallItem (setCustomToolInput (materializedCustomInput
            ((StreamedCall.custom call).progress (some chunks))) next) := by
      simp [preserveBufferedProgress, StreamedCall.progress, hempty]
    simp only [slotStep, streamAction, itemProgress, if_true, hpreserved]
    rfl

/-- The slot of a call that was added, streamed and finished. -/
theorem slot_of_streamed {index : ℤ} {call : StreamedCall π}
    {finish : ResponseStreamEvent π} (h : Finishes index deltas call finish)
    (sequenceNumber : Option ℤ) :
    ((.responseOutputItemAddedEvent call.item (some index) sequenceNumber
          :: deltas.map (call.deltaEvent index) ++ [finish]).foldl slotStep none).bind
        (fun progress => call.textOf (materializeItemProgress progress))
      = some (call.text ++ (deltas.map (·.value)).flatten) := by
  have hadded : slotStep none (.responseOutputItemAddedEvent call.item (some index) sequenceNumber)
      = some (call.progress none) := by
    cases call with
    | function call | custom call => rfl
  have htext := textBufferToText_bufferDeltas deltas none
  rw [getD_none, textBufferToText_empty, nil_append] at htext
  rw [cons_append, foldl_cons, hadded, foldl_append, foldl_deltas, foldl_cons,
    foldl_nil, slotStep_finish h fun hdeltas => isSome_bufferDeltas hdeltas none, htext]

/-- A later version of an item brings its own text. -/
theorem textOf_mergeResponseItem (call : StreamedCall π) (old new : ResponseItem π) :
    call.textOf (mergeResponseItem old new) = call.textOf new := by
  cases new with
  | functionCallItem next | customToolCallItem next => cases call <;> cases old <;> rfl
  | _ => cases old <;> rfl

/-- The text of a slot is the text of its item in the output. -/
theorem textOf_assembledItems (call : StreamedCall π) (terminal : Response π)
    (state : StreamAssemblyState π) (index : ℤ) {text : Text}
    (h : (state.outputItems.outputSlots.lookup index).bind
      (fun progress => call.textOf (materializeItemProgress progress)) = some text) :
    ((assembledItems terminal state).lookup index).bind call.textOf = some text := by
  obtain ⟨progress, hprogress, htext⟩ := bind_eq_some_iff.mp h
  simp only [assembledItems, FinMap.unionWith, lookup_map, hprogress, map_some]
  -- the slot is merged over an item of the terminal response, or stands alone
  split
  · next final streamed hfinal hstreamed =>
    cases hstreamed
    rw [Option.bind_some, textOf_mergeResponseItem, htext]
  · next hnone => cases hnone
  · rw [Option.bind_some, htext]

/-! ### The output of a stream -/

theorem mergeOutputItems_nil (items : List (ResponseItem π)) :
    mergeOutputItems items [] = items := by
  simp [mergeOutputItems]

section Output

variable {η : Type} (jsonDecodeError : Text → Text → η) (showEvent : ResponseStreamEvent π → Text)
  (config : StreamAssemblyConfig π η) (modelHint : Option Text)

/-- An assembled response has the assembled items for its output, unless there are none. -/
theorem output_of_finishStreamResponse {state : StreamAssemblyState π}
    {event : ResponseStreamEvent π} {response : Response π}
    (h : finishStreamResponse jsonDecodeError showEvent modelHint state event = .ok response) :
    ∃ terminal, terminalResponse event = some terminal ∧
      ((assembledItems terminal state).elems ≠ [] →
        response.output = (assembledItems terminal state).elems) := by
  unfold finishStreamResponse at h
  cases hterminal : terminalResponse event with
  | none =>
    rw [hterminal] at h
    cases h
  | some terminal =>
    refine ⟨terminal, rfl, fun hne => ?_⟩
    have hempty : (assembledItems terminal state).elems.isEmpty = false := by simpa using hne
    have hdone : (mergeDoneResponse state.lifecycleResponse []
        (setResponseOutput (assembledTerminalOutput terminal state) terminal)).output
        = (assembledItems terminal state).elems := by
      unfold mergeDoneResponse mergeCompletedResponseOutput
      cases state.lifecycleResponse with
      | none => simp [setResponseOutput, assembledTerminalOutput, mergeOutputItems_nil]
      | some base =>
        simp [mergeResponseFragment, setResponseOutput, assembledTerminalOutput,
          mergeOutputItems_nil, hempty]
    -- The model hint does not reach the output.
    have hmodel : ∀ merged : Response π,
        (if merged.model.isEmpty then setResponseModel (modelHint.getD []) merged
          else merged).output = merged.output := by
      intro merged
      split <;> rfl
    rw [hterminal] at h
    dsimp only at h
    generalize hwith : (if List.isEmpty _ = true then _ else _ : Response π) = withModel at h
    split at h
    · cases h
    · cases h
      rw [← hwith, hmodel, hdone]

/-- An assembled response comes from the terminal event of its stream. -/
theorem output_of_build {events : List (ResponseStreamEvent π)} {response : Response π}
    (h : buildStreamResponseWithModel jsonDecodeError showEvent config modelHint events
      = .ok response) :
    ∃ terminal, (events.find? isTerminal).bind terminalResponse = some terminal ∧
      let items := assembledItems terminal
        ((upToTerminal events).foldl applyStreamEvent emptyStreamAssemblyState)
      (items.elems ≠ [] → response.output = items.elems) := by
  rw [buildStreamResponseWithModel, buildFrom_eq_conclude] at h
  -- a stream without a terminal event gives no response
  cases hterminal : events.find? isTerminal with
  | none =>
    rw [hterminal] at h
    simp only [conclude, finishStreamWithoutTerminal] at h
    split at h
    · split at h <;> cases h
    · cases h
  | some event =>
    rw [hterminal] at h
    have hfinish : finishStreamResponse jsonDecodeError showEvent modelHint
        ((upToTerminal events).foldl applyStreamEvent emptyStreamAssemblyState) event
        = .ok response := by
      cases event with
      | responseIncompleteEvent responseValue sequenceNumber =>
        simp only [conclude] at h
        split at h
        · cases h
        · exact h
      | _ => first | exact h | cases h
    exact output_of_finishStreamResponse jsonDecodeError showEvent modelHint hfinish

/-- **Stream assembly does not depend on the interleaving of the items.**  Streams whose item and
delta events carry their index give the same result when, up to the first terminal event, they have
the same lifecycle events and for every index the same events.  Where an index receives an added
call, deltas and a finishing event without text, the text of the call is the added text followed by
the deltas, and an assembled response has the item in its output. -/
theorem stream_assembly_independent_of_interleaving :
    (∀ first second : List (ResponseStreamEvent π),
      Indexed (upToTerminal first) → Indexed (upToTerminal second) →
      (∀ index, eventsAt index (upToTerminal first) = eventsAt index (upToTerminal second)) →
      (upToTerminal first).filter isLifecycle = (upToTerminal second).filter isLifecycle →
      buildStreamResponseWithModel jsonDecodeError showEvent config modelHint first
        = buildStreamResponseWithModel jsonDecodeError showEvent config modelHint second) ∧
    (∀ (events : List (ResponseStreamEvent π)) (index : ℤ) (call : StreamedCall π)
      (deltas : List CallDelta) (finish : ResponseStreamEvent π) (sequenceNumber : Option ℤ),
      Indexed (upToTerminal events) →
      eventsAt index (upToTerminal events)
        = .responseOutputItemAddedEvent call.item (some index) sequenceNumber
          :: deltas.map (call.deltaEvent index) ++ [finish] →
      Finishes index deltas call finish →
      let items := fun terminal => assembledItems terminal
        ((upToTerminal events).foldl applyStreamEvent emptyStreamAssemblyState)
      (∀ terminal, ((items terminal).lookup index).bind call.textOf
        = some (call.text ++ (deltas.map (·.value)).flatten)) ∧
      ∀ response,
        buildStreamResponseWithModel jsonDecodeError showEvent config modelHint events
          = .ok response →
        ∃ terminal, (events.find? isTerminal).bind terminalResponse = some terminal ∧
          response.output = (items terminal).elems) := by
  refine ⟨fun first second => build_eq_of_agree jsonDecodeError showEvent config modelHint, ?_⟩
  intro events index call deltas finish sequenceNumber hindexed hevents hfinish items
  have hslot : (((upToTerminal events).foldl applyStreamEvent
      emptyStreamAssemblyState).outputItems.outputSlots.lookup index).bind
        (fun progress => call.textOf (materializeItemProgress progress))
      = some (call.text ++ (deltas.map (·.value)).flatten) := by
    rw [lookup_foldl index hindexed, hevents]
    exact slot_of_streamed hfinish sequenceNumber
  have htext : ∀ terminal, ((items terminal).lookup index).bind call.textOf
      = some (call.text ++ (deltas.map (·.value)).flatten) :=
    fun terminal => textOf_assembledItems call terminal _ index hslot
  refine ⟨htext, fun response hresponse => ?_⟩
  obtain ⟨terminal, hterminal, houtput⟩ :=
    output_of_build jsonDecodeError showEvent config modelHint hresponse
  obtain ⟨item, hitem, -⟩ := bind_eq_some_iff.mp (htext terminal)
  exact ⟨terminal, hterminal, houtput (ne_nil_of_mem (mem_elems.mpr ⟨index, hitem⟩))⟩

end Output

/-! ### Concrete streams -/

/-- A function call with the arguments. -/
def functionCallWith (callId arguments : Text) : FunctionCall Unit where
  itemId := none
  callId := callId
  name := "read".toList
  callNamespace := none
  provider := none
  arguments := arguments
  encryptedFunctionArgs := none
  status := none
  async := none

def completedEvent : ResponseStreamEvent Unit :=
  .responseCompletedEvent
    { responseId := ['r']
      createdAt := 0
      error := none
      incompleteDetails := none
      model := ['m']
      object := "response".toList
      output := []
      status := .responseCompleted
      optional := fun _ => none } none

def addedEvent (index : ℤ) (callId arguments : Text) : ResponseStreamEvent Unit :=
  .responseOutputItemAddedEvent (.functionCallItem (functionCallWith callId arguments))
    (some index) none

def doneEvent (index : ℤ) (callId arguments : Text) : ResponseStreamEvent Unit :=
  .responseOutputItemDoneEvent (.functionCallItem (functionCallWith callId arguments))
    (some index) none

def argumentsDelta (index : ℤ) (value : Text) : ResponseStreamEvent Unit :=
  .responseFunctionCallArgumentsDeltaEvent (some value) none (some index) none

/-- A configuration whose errors are texts. -/
def textConfig : StreamAssemblyConfig Unit Text where
  missingCompletionMessage := "Stream ended without response.completed".toList
  classifyStreamError := fun streamError => streamError.message
  classifyFailedResponse := fun failure => failure.failureErrorMessage.getD []
  incompleteAsFailure := false

/-- The texts of the function calls in the output of a stream. -/
def outputArguments (events : List (ResponseStreamEvent Unit)) : Option (List Text) :=
  match buildStreamResponseWithModel (fun message _ => message) (fun _ => []) textConfig none
      events with
  | .ok response => some (response.output.filterMap
      (StreamedCall.function (functionCallWith [] [])).textOf)
  | .error _ => none

/-- Two calls one after the other. -/
def sequentialCalls : List (ResponseStreamEvent Unit) :=
  [addedEvent 0 ['a'] ['x'], argumentsDelta 0 ['y'], doneEvent 0 ['a'] [],
    addedEvent 1 ['b'] [], argumentsDelta 1 ['z'], completedEvent]

/-- The same calls interleaved. -/
def interleavedCalls : List (ResponseStreamEvent Unit) :=
  [addedEvent 1 ['b'] [], addedEvent 0 ['a'] ['x'], argumentsDelta 1 ['z'],
    argumentsDelta 0 ['y'], doneEvent 0 ['a'] [], completedEvent]

theorem eventsAt_sequentialCalls (index : ℤ) :
    eventsAt index (upToTerminal sequentialCalls)
      = eventsAt index (upToTerminal interleavedCalls) := by
  -- the two indexes in use, and all others
  rcases eq_or_ne index 0 with rfl | hzero
  · rfl
  · rcases eq_or_ne index 1 with rfl | hone
    · rfl
    · have hnone : ∀ events : List (ResponseStreamEvent Unit),
          (∀ event ∈ events, event.outputIndex ≠ some index) → eventsAt index events = [] := by
        intro events hevents
        exact filter_eq_nil_iff.mpr fun event hevent => by simpa using hevents event hevent
      rw [hnone (upToTerminal sequentialCalls), hnone (upToTerminal interleavedCalls)]
      · simp [interleavedCalls, upToTerminal, isTerminal, addedEvent, argumentsDelta, doneEvent,
          completedEvent, ResponseStreamEvent.outputIndex, streamAction, Ne.symm hzero,
          Ne.symm hone]
      · simp [sequentialCalls, upToTerminal, isTerminal, addedEvent, argumentsDelta, doneEvent,
          completedEvent, ResponseStreamEvent.outputIndex, streamAction, Ne.symm hzero,
          Ne.symm hone]

/-- Two calls one after the other give the result of the same calls interleaved, with the streamed
arguments. -/
theorem stream_assembly_of_interleavedCalls :
    buildStreamResponseWithModel (fun message _ => message) (fun _ => []) textConfig none
        sequentialCalls
      = buildStreamResponseWithModel (fun message _ => message) (fun _ => []) textConfig none
        interleavedCalls ∧
    outputArguments interleavedCalls = some [['x', 'y'], ['z']] ∧
    ∀ terminal, ((assembledItems terminal ((upToTerminal interleavedCalls).foldl applyStreamEvent
        emptyStreamAssemblyState)).lookup 0).bind
        (StreamedCall.function (functionCallWith ['a'] ['x'])).textOf
      = some ['x', 'y'] := by
  have hindexed : Indexed (upToTerminal interleavedCalls) := by
    unfold Indexed
    decide
  obtain ⟨hagree, hstreamed⟩ := stream_assembly_independent_of_interleaving
    (fun message _ => message) (fun _ => []) textConfig none
  refine ⟨hagree _ _ (by unfold Indexed; decide) hindexed eventsAt_sequentialCalls rfl,
    by decide +kernel, ?_⟩
  exact (hstreamed interleavedCalls 0 (.function (functionCallWith ['a'] ['x']))
    [⟨['y'], none, none, none⟩] (doneEvent 0 ['a'] []) none hindexed rfl
    (.functionItemDone _ _ none rfl (cons_ne_nil _ _))).1

/-- Events after a terminal event are not read, so streams that agree index by index as a whole may
give different results; and an item that is finished without text after no delta has no text. -/
theorem whole_streams_depend_on_interleaving :
    (∃ first second : List (ResponseStreamEvent Unit), Indexed first ∧ Indexed second ∧
      (∀ index, eventsAt index first = eventsAt index second) ∧
      first.filter isLifecycle = second.filter isLifecycle ∧
      buildStreamResponseWithModel (fun message _ => message) (fun _ => []) textConfig none first
        ≠ buildStreamResponseWithModel (fun message _ => message) (fun _ => []) textConfig none
          second) ∧
    outputArguments [addedEvent 0 ['a'] ['x'], doneEvent 0 ['a'] [], completedEvent]
      = some [[]] := by
  refine ⟨⟨[addedEvent 0 ['a'] ['x'], completedEvent],
    [completedEvent, addedEvent 0 ['a'] ['x']], by unfold Indexed; decide,
    by unfold Indexed; decide, ?_, rfl, ?_⟩, by decide +kernel⟩
  · intro index
    by_cases hindex : some (0 : ℤ) = some index
    · simp [eventsAt, addedEvent, completedEvent, ResponseStreamEvent.outputIndex, streamAction,
        hindex]
    · simp [eventsAt, addedEvent, completedEvent, ResponseStreamEvent.outputIndex, streamAction,
        hindex]
  · intro heq
    have hfirst : outputArguments [addedEvent 0 ['a'] ['x'], completedEvent]
        = some [['x']] := by decide +kernel
    have hsecond : outputArguments [completedEvent, addedEvent 0 ['a'] ['x']]
        = some [] := by decide +kernel
    have hsame : outputArguments [addedEvent 0 ['a'] ['x'], completedEvent]
        = outputArguments [completedEvent, addedEvent 0 ['a'] ['x']] := by
      unfold outputArguments
      rw [heq]
    rw [hfirst, hsecond] at hsame
    exact absurd hsame (by decide)

end HaskellAgent.Responses
