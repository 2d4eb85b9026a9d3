import HaskellAgent.Lib.FinMap
import HaskellAgent.Lib.Machine
import HaskellAgent.Lib.Runs
import HaskellAgent.TUI.Model.Types

/-!
# The bounded transcript window

The window holds a range of the durable turns, in ascending order of their cursors.  Pages of older
or newer turns are merged into it, and turns at its edges are evicted to keep its budgets.  What the
screen shows of the turns (the chunks of the transcript) is left out.
-/

namespace HaskellAgent
namespace TUI

abbrev HistoryCursor := ℤ

abbrev HistoryGeneration := ℤ

inductive HistoryDirection
  | older
  | newer
  deriving DecidableEq, Repr

structure HistoryTurn where
  historyTurnCursor : HistoryCursor
  historyTurnBlocks : List UiBlock
  /-- The complete chart envelopes of the blocks. -/
  historyTurnCharts : FinMap BlockId Text
  deriving DecidableEq

/-- A page is in ascending order, whichever the direction in which it was requested. -/
structure HistoryPage where
  historyPageGeneration : HistoryGeneration
  historyPageDirection : HistoryDirection
  historyPageTurns : List HistoryTurn
  historyPageGenerationStart : HistoryCursor
  historyPageTotalTurns : ℤ
  historyPageHasOlder : Bool
  historyPageHasNewer : Bool
  deriving DecidableEq

structure HistoryRequest where
  historyRequestGeneration : HistoryGeneration
  historyRequestDirection : HistoryDirection
  historyRequestCursor : Option HistoryCursor
  deriving DecidableEq, Repr

structure HistoryWindow where
  historyWindowGeneration : HistoryGeneration
  historyWindowTurns : List HistoryTurn
  historyWindowTurnsByCursor : FinMap HistoryCursor HistoryTurn
  historyWindowBlocksById : FinMap BlockId UiBlock
  historyWindowHasOlder : Bool
  historyWindowHasNewer : Bool
  historyWindowMaxTurns : ℤ
  historyWindowMaxBlocks : ℤ
  historyWindowMaxBytes : ℤ
  historyWindowGenerationStart : HistoryCursor
  historyWindowTotalTurns : ℤ
  historyWindowPending : List HistoryDirection
  historyWindowVisibleAnchor : Option HistoryCursor
  historyWindowSelectedAnchor : Option HistoryCursor

inductive HistoryPageRejection
  | stale (generation : HistoryGeneration)
  deriving DecidableEq, Repr

def emptyHistoryWindow (generation : HistoryGeneration) (maxTurns maxBlocks maxBytes : ℤ) :
    HistoryWindow where
  historyWindowGeneration := generation
  historyWindowTurns := []
  historyWindowTurnsByCursor := .empty
  historyWindowBlocksById := .empty
  historyWindowHasOlder := false
  historyWindowHasNewer := false
  historyWindowMaxTurns := max 1 maxTurns
  historyWindowMaxBlocks := max 1 maxBlocks
  historyWindowMaxBytes := max 1 maxBytes
  historyWindowGenerationStart := 0
  historyWindowTotalTurns := 0
  historyWindowPending := []
  historyWindowVisibleAnchor := none
  historyWindowSelectedAnchor := none

def setHistoryWindowTurns (turns : List HistoryTurn) (window : HistoryWindow) : HistoryWindow :=
  { window with
    historyWindowTurns := turns
    historyWindowTurnsByCursor := .ofList (turns.map fun turn => (turn.historyTurnCursor, turn))
    historyWindowBlocksById := .ofList
      ((turns.flatMap (·.historyTurnBlocks)).map fun block => (block.blockId, block)) }

/-! ### What is loaded -/

def historyWindowLoadedTurns (window : HistoryWindow) : ℤ := window.historyWindowTurns.length

def historyWindowLoadedBlocks (window : HistoryWindow) : ℤ :=
  window.historyWindowTurns.foldl (fun total turn => total + turn.historyTurnBlocks.length) 0

def historyBlockBytes (block : UiBlock) : ℤ :=
  96 + textBytes block.blockTitle + textBytes block.blockBody + textBytes block.blockTimestamp
    + textBytes block.blockDetail + block.blockCallId.elim 0 textBytes
where
  textBytes (text : Text) : ℤ := 2 * text.length

def historyTurnBytes (turn : HistoryTurn) : ℤ :=
  (turn.historyTurnCharts.elems.map fun chart => 2 * (chart.length : ℤ)).sum
    + (turn.historyTurnBlocks.map historyBlockBytes).sum

def historyWindowLoadedBytes (window : HistoryWindow) : ℤ :=
  window.historyWindowTurns.foldl (fun total turn => total + historyTurnBytes turn) 0

def historyWindowCursors (window : HistoryWindow) : List HistoryCursor :=
  window.historyWindowTurns.map (·.historyTurnCursor)

/-! ### Anchors and requests -/

def historyWindowSetAnchors (visible selected : Option HistoryCursor) (window : HistoryWindow) :
    HistoryWindow :=
  { window with
    historyWindowVisibleAnchor := keepLoaded visible
    historyWindowSelectedAnchor := keepLoaded selected }
where
  keepLoaded (cursor : Option HistoryCursor) : Option HistoryCursor :=
    cursor.bind fun value => if value ∈ historyWindowCursors window then some value else none

def historyWindowCanRequest (direction : HistoryDirection) (window : HistoryWindow) : Bool :=
  !window.historyWindowPending.contains direction &&
    match direction with
    | .older => window.historyWindowHasOlder
    | .newer => window.historyWindowHasNewer

def edgeTurn (direction : HistoryDirection) (window : HistoryWindow) : Option HistoryTurn :=
  match direction with
  | .older => window.historyWindowTurns.head?
  | .newer => window.historyWindowTurns.getLast?

def historyWindowRequest (direction : HistoryDirection) (window : HistoryWindow) :
    Option HistoryRequest :=
  if !historyWindowCanRequest direction window then none
  else some
    { historyRequestGeneration := window.historyWindowGeneration
      historyRequestDirection := direction
      historyRequestCursor := (edgeTurn direction window).map (·.historyTurnCursor) }

def markHistoryRequest (direction : HistoryDirection) (window : HistoryWindow) : HistoryWindow :=
  match historyWindowRequest direction window with
  | none => window
  | some _ =>
    { window with
      historyWindowPending := direction :: window.historyWindowPending.filter (· ≠ direction) }

def clearHistoryRequest (request : HistoryRequest) (window : HistoryWindow) : HistoryWindow :=
  if request.historyRequestGeneration ≠ window.historyWindowGeneration then window
  else
    { window with
      historyWindowPending :=
        window.historyWindowPending.filter (· ≠ request.historyRequestDirection) }

/-! ### Eviction -/

def withinBudget (window : HistoryWindow) : Bool :=
  historyWindowLoadedTurns window ≤ window.historyWindowMaxTurns
    && historyWindowLoadedBlocks window ≤ window.historyWindowMaxBlocks
    && historyWindowLoadedBytes window ≤ window.historyWindowMaxBytes

def canEvict (window : HistoryWindow) (direction : HistoryDirection) : Bool :=
  match edgeTurn direction window with
  | none => false
  | some turn =>
    some turn.historyTurnCursor ≠ window.historyWindowVisibleAnchor
      && some turn.historyTurnCursor ≠ window.historyWindowSelectedAnchor

def HistoryDirection.opposite : HistoryDirection → HistoryDirection
  | .older => .newer
  | .newer => .older

def preferredEvictionDirection (preferred : HistoryDirection) (window : HistoryWindow) :
    Option HistoryDirection :=
  if canEvict window preferred then some preferred
  else if canEvict window preferred.opposite then some preferred.opposite
  else none

def evictOne (direction : HistoryDirection) (window : HistoryWindow) : HistoryWindow :=
  match direction with
  | .older =>
    { window with
      historyWindowTurns := window.historyWindowTurns.tail
      historyWindowHasOlder := true }
  | .newer =>
    { window with
      historyWindowTurns := window.historyWindowTurns.dropLast
      historyWindowHasNewer := true }

/-- Evict turns until the budget holds.  Each round evicts one, so there are no more rounds than
turns. -/
def trimBudgetFrom (preferred : HistoryDirection) (measure : HistoryTurn → ℤ) (limit : ℤ) :
    ℕ → ℤ → HistoryWindow → ℤ × HistoryWindow
  | 0, total, current => (total, current)
  | rounds + 1, total, current =>
    if total ≤ limit then (total, current)
    else if historyWindowLoadedTurns current ≤ 1 then (total, current)
    else
      match preferredEvictionDirection preferred current with
      | none => (total, current)
      | some direction =>
        match edgeTurn direction current with
        | none => (total, current)
        | some removed =>
          trimBudgetFrom preferred measure limit rounds (total - measure removed)
            (evictOne direction current)

def trimBudget (preferred : HistoryDirection) (measure : HistoryTurn → ℤ) (limit total : ℤ)
    (window : HistoryWindow) : ℤ × HistoryWindow :=
  trimBudgetFrom preferred measure limit window.historyWindowTurns.length total window

def trimWindowPrefer (preferred : HistoryDirection) (window : HistoryWindow) : HistoryWindow :=
  if withinBudget window then window
  else
    let turns := trimBudget preferred (fun _ => 1) window.historyWindowMaxTurns
      (historyWindowLoadedTurns window) window
    let blocks := trimBudget preferred (fun turn => turn.historyTurnBlocks.length)
      window.historyWindowMaxBlocks (historyWindowLoadedBlocks turns.2) turns.2
    if turns.1 > window.historyWindowMaxTurns then turns.2
    else if blocks.1 > window.historyWindowMaxBlocks then blocks.2
    else (trimBudget preferred historyTurnBytes window.historyWindowMaxBytes
      (historyWindowLoadedBytes blocks.2) blocks.2).2

/-- One turn is evicted: the last at its edge, not anchored, and not the only one. -/
inductive Evicts (window : HistoryWindow) : HistoryWindow → Prop
  | evict {direction : HistoryDirection} (hmore : 1 < window.historyWindowTurns.length)
      (hedge : canEvict window direction = true) : Evicts window (evictOne direction window)

theorem canEvict_of_preferred {preferred direction : HistoryDirection} {window : HistoryWindow}
    (h : preferredEvictionDirection preferred window = some direction) :
    canEvict window direction = true := by
  unfold preferredEvictionDirection at h
  split at h
  · next hcan =>
    cases h
    exact hcan
  · split at h
    · next hcan =>
      cases h
      exact hcan
    · cases h

theorem trimBudgetFrom_evictions (preferred : HistoryDirection) (measure : HistoryTurn → ℤ)
    (limit : ℤ) (rounds : ℕ) (total : ℤ) (window : HistoryWindow) :
    Relation.ReflTransGen Evicts window
      (trimBudgetFrom preferred measure limit rounds total window).2 := by
  induction rounds generalizing total window with
  | zero => exact .refl
  | succ rounds ih =>
    unfold trimBudgetFrom
    split
    · exact .refl
    · split
      · exact .refl
      · next hmore =>
        split
        · exact .refl
        · next direction hdirection =>
          split
          · exact .refl
          · have hlength : 1 < window.historyWindowTurns.length := by
              simp only [historyWindowLoadedTurns] at hmore
              omega
            exact .head (.evict hlength (canEvict_of_preferred hdirection)) (ih _ _)

/-- **Trimming evicts one turn after the other, none of them anchored.** -/
theorem trimWindowPrefer_evictions (preferred : HistoryDirection) (window : HistoryWindow) :
    Relation.ReflTransGen Evicts window (trimWindowPrefer preferred window) := by
  have hturns := trimBudgetFrom_evictions preferred (fun _ => 1) window.historyWindowMaxTurns
    window.historyWindowTurns.length (historyWindowLoadedTurns window) window
  have hblocks := fun limit total current => trimBudgetFrom_evictions preferred
    (fun turn => turn.historyTurnBlocks.length) limit current.historyWindowTurns.length total current
  unfold trimWindowPrefer
  split
  · exact .refl
  · dsimp only
    split
    · exact hturns
    · split
      · exact hturns.trans (hblocks _ _ _)
      · exact (hturns.trans (hblocks _ _ _)).trans (trimBudgetFrom_evictions ..)

/-! ### Pages -/

def sortTurns (turns : List HistoryTurn) : List HistoryTurn :=
  turns.insertionSort fun a b => a.historyTurnCursor ≤ b.historyTurnCursor

def uniqueTurns (turns : List HistoryTurn) : List HistoryTurn :=
  turns.firstByKey (·.historyTurnCursor)

/-- The turns of the page and those held, and the page's edges, before anything is evicted. -/
def mergedWindow (page : HistoryPage) (window : HistoryWindow) : HistoryWindow :=
  let direction := page.historyPageDirection
  let incoming := uniqueTurns page.historyPageTurns
  let existing := window.historyWindowTurns
  let merged :=
    match direction with
    | .older => incoming ++ existing
    | .newer => existing ++ incoming
  { window with
    historyWindowTurns := uniqueTurns (sortTurns merged)
    historyWindowPending := window.historyWindowPending.filter (· ≠ direction)
    historyWindowGenerationStart := page.historyPageGenerationStart
    historyWindowTotalTurns := page.historyPageTotalTurns
    historyWindowHasOlder := page.historyPageHasOlder
    historyWindowHasNewer := page.historyPageHasNewer }

def mergePage (page : HistoryPage) (window : HistoryWindow) : HistoryWindow :=
  let trimmed := trimWindowPrefer page.historyPageDirection.opposite (mergedWindow page window)
  setHistoryWindowTurns trimmed.historyWindowTurns trimmed

def applyHistoryPage (page : HistoryPage) (window : HistoryWindow) :
    Except HistoryPageRejection HistoryWindow :=
  if page.historyPageGeneration ≠ window.historyWindowGeneration then
    .error (.stale page.historyPageGeneration)
  else .ok (mergePage page window)

/-- The window that a new turn is put in: a new one when the old is not at the durable tail. -/
def appendBase (window : HistoryWindow) : HistoryWindow :=
  if window.historyWindowHasNewer then
    emptyHistoryWindow window.historyWindowGeneration window.historyWindowMaxTurns
      window.historyWindowMaxBlocks window.historyWindowMaxBytes
  else window

def appendPage (turn : HistoryTurn) (window : HistoryWindow) : HistoryPage where
  historyPageGeneration := window.historyWindowGeneration
  historyPageDirection := .newer
  historyPageTurns := [turn]
  historyPageGenerationStart := window.historyWindowGenerationStart
  historyPageTotalTurns := window.historyWindowTotalTurns + 1
  historyPageHasOlder :=
    if window.historyWindowHasNewer then 0 < window.historyWindowTotalTurns
    else window.historyWindowHasOlder
  historyPageHasNewer := false

def appendHistoryTurn (turn : HistoryTurn) (window : HistoryWindow) : HistoryWindow :=
  match applyHistoryPage (appendPage turn window) (appendBase window) with
  | .error _ => appendBase window
  | .ok window => window

end TUI
end HaskellAgent
