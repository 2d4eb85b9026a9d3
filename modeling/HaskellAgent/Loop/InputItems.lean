import HaskellAgent.Loop.Input

/-!
# Conversation items and backend snapshots

The history a provider continues from, and how accepted inputs enter it.  Recovery and successful
submissions encode inputs alike, through `turnInputsToItems`: one item for each input, and one more
that shows the last screenshot of a computer tool.

Messages stand for the input they encode.  What the JSON library decides about an item is a
parameter, `ItemEncoding`.
-/

namespace HaskellAgent

inductive ItemStatus
  | inProgress
  | completed
  | incomplete
  | unknown (text : Text)
  deriving DecidableEq

/-- An item of the conversation history. -/
inductive ResponseItem
  | functionCall (callId : Text) (status : Option ItemStatus)
  | customToolCall (callId : Text) (status : Option ItemStatus)
  | computerCall (computerCallId : Text)
  | toolSearchCall (callId : Option Text) (execution : Option Text)
  | functionCallOutput (callId output : Text) (async : Option Bool)
      (localOutcome : Option ToolOutcome)
  | customToolCallOutput (callId output : Text) (async : Option Bool)
      (localOutcome : Option ToolOutcome)
  | toolSearchOutput (callId : Text) (tools : List Text)
  /-- A message that encodes an input which is no tool result. -/
  | message (input : TurnInput)
  /-- A message that shows a screenshot. -/
  | screenshot (imageUrl : Text)
  /-- Any other item. -/
  | other (text : Text)
  deriving DecidableEq

/-- A checkpoint of the backend. -/
structure BackendSnapshot where
  backendItems : List ResponseItem
  backendRevision : ℕ
  backendContinuation : Option Text
  backendProviderState : Option Text
  deriving DecidableEq

def advanceBackendSnapshot (snapshot : BackendSnapshot) (items : List ResponseItem)
    (continuation : Option Text) : BackendSnapshot where
  backendItems := items
  backendRevision := snapshot.backendRevision + 1
  backendContinuation := continuation
  backendProviderState :=
    -- the provider's own state is about a history it has seen, so it survives only growth
    if snapshot.backendItems.isPrefixOf items then snapshot.backendProviderState else none

/-- What the JSON library contributes to items. -/
structure ItemEncoding where
  /-- A tool's text with its images and files, as JSON. -/
  richToolResultOutput : Text → List ToolResultImage → List ToolResultFile → Text
  /-- The text shown for the output of a computer action. -/
  computerFunctionTextOutput : Text → Text
  /-- The tool definitions found by a tool search. -/
  toolSearchOutputTools : ToolCallResult → List Text
  /-- The screenshot in the output of a computer action that returned no image. -/
  legacyComputerScreenshot : Text → Option Text

def isComputerToolCallKind : ToolCallKind → Bool
  | .computerCall => true
  | .computerFunctionCall => true
  | _ => false

def asyncResultField (result : ToolCallResult) : Option Bool :=
  match result.toolResultMode with
  | .async => some true
  | .blocking => none

variable (enc : ItemEncoding)

def toolResultOutput (result : ToolCallResult) : Text :=
  enc.richToolResultOutput result.output result.toolResultImages result.toolResultFiles

def computerFunctionToolResultOutput (result : ToolCallResult) : Text :=
  enc.richToolResultOutput (enc.computerFunctionTextOutput result.output)
    result.toolResultImages result.toolResultFiles

def toolResultToItem (result : ToolCallResult) : ResponseItem :=
  match result.callKind with
  | .functionCall =>
      .functionCallOutput result.callId (toolResultOutput enc result) (asyncResultField result)
        result.toolResultOutcome
  | .customCall =>
      .customToolCallOutput result.callId (toolResultOutput enc result) (asyncResultField result)
        result.toolResultOutcome
  | .computerCall | .computerFunctionCall =>
      .functionCallOutput result.callId (computerFunctionToolResultOutput enc result) none
        result.toolResultOutcome
  | .toolSearchCall => .toolSearchOutput result.callId (enc.toolSearchOutputTools result)

def turnInputToItem : TurnInput → ResponseItem
  | .completedTool result => toolResultToItem enc result
  | input => .message input

/-- The characters that `Text.strip` removes. -/
def isSpace (c : Char) : Bool :=
  let n := c.toNat
  (9 ≤ n && n ≤ 13) || n == 0x20 || n == 0xa0 || n == 0x1680 || (0x2000 ≤ n && n ≤ 0x200a) ||
    n == 0x202f || n == 0x205f || n == 0x3000

def nonEmptyImageUrl (imageUrl : Text) : Option Text :=
  if imageUrl.all isSpace then none else some imageUrl

def latestComputerScreenshot (inputs : List TurnInput) : Option Text := do
  let results := inputs.filterMap fun
    | .completedTool result => if isComputerToolCallKind result.callKind then some result else none
    | _ => none
  let result ← results.getLast?
  -- only the latest result counts, even if it has no image
  match result.toolResultImages.getLast?.bind (fun image => nonEmptyImageUrl image.imageUrl) with
  | some imageUrl => some imageUrl
  | none => (enc.legacyComputerScreenshot result.output).bind nonEmptyImageUrl

def turnInputsToItems (inputs : List TurnInput) : List ResponseItem :=
  inputs.map (turnInputToItem enc) ++
    (latestComputerScreenshot enc inputs).toList.map ResponseItem.screenshot

/-! ### Output items -/

/-- The call an item is the output of. -/
def ResponseItem.outputOf : ResponseItem → Option Text
  | .functionCallOutput callId _ _ _ => some callId
  | .customToolCallOutput callId _ _ _ => some callId
  | .toolSearchOutput callId _ => some callId
  | _ => none

/-- The results of a call among inputs. -/
def completedTools (callId : Text) (inputs : List TurnInput) : List ToolCallResult :=
  inputs.filterMap fun
    | .completedTool result => if result.callId = callId then some result else none
    | _ => none

/-- The output items of a call. -/
def outputItems (callId : Text) (items : List ResponseItem) : List ResponseItem :=
  items.filter fun item => item.outputOf = some callId

@[simp] theorem outputOf_toolResultToItem (result : ToolCallResult) :
    (toolResultToItem enc result).outputOf = some result.callId := by
  unfold toolResultToItem
  cases result.callKind <;> rfl

@[simp] theorem completedTools_append (callId : Text) (xs ys : List TurnInput) :
    completedTools callId (xs ++ ys) = completedTools callId xs ++ completedTools callId ys :=
  List.filterMap_append

theorem outputItems_map_turnInputToItem (callId : Text) (inputs : List TurnInput) :
    outputItems callId (inputs.map (turnInputToItem enc))
      = (completedTools callId inputs).map (toolResultToItem enc) := by
  induction inputs with
  | nil => rfl
  | cons input rest ih =>
    rw [List.map_cons, outputItems, List.filter_cons, ← outputItems, ih]
    cases input with
    | completedTool result =>
      by_cases hid : result.callId = callId
      · simp [turnInputToItem, completedTools, hid]
      · simp [turnInputToItem, completedTools, hid]
    | _ => rfl

/-- **The output items of a call are its results, in order.**  The screenshot is no output. -/
theorem outputItems_turnInputsToItems (callId : Text) (inputs : List TurnInput) :
    outputItems callId (turnInputsToItems enc inputs)
      = (completedTools callId inputs).map (toolResultToItem enc) := by
  have hshot : outputItems callId
      ((latestComputerScreenshot enc inputs).toList.map ResponseItem.screenshot) = [] := by
    cases latestComputerScreenshot enc inputs <;> rfl
  rw [turnInputsToItems, outputItems, List.filter_append, ← outputItems, ← outputItems,
    outputItems_map_turnInputToItem, hshot, List.append_nil]

end HaskellAgent
