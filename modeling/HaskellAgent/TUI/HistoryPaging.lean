import HaskellAgent.TUI.History

/-!
# Paging through a durable conversation

The durable turns of a conversation grow at their end.  The window asks for pages of the turns next
to its edges.  A page is read some time later, and it arrives some time after that: meanwhile turns
may have been appended and evicted, and the edge may have moved.  A page that arrives then is merged
all the same.
-/

open Option Machine

namespace HaskellAgent

namespace TUI

open List

/-! ### Reading pages -/

/-- The last rows, read from the end backwards. -/
def lastTurns (limit : ℕ) (turns : List HistoryTurn) : List HistoryTurn :=
  (turns.reverse.take limit).reverse

def loadTurnRows (limit : ℕ) (durable : List HistoryTurn) (request : HistoryRequest) :
    List HistoryTurn :=
  match request.historyRequestDirection, request.historyRequestCursor with
  | .older, some cursor => lastTurns limit (durable.filter (·.historyTurnCursor < cursor))
  | .newer, some cursor => (durable.filter (cursor < ·.historyTurnCursor)).take limit
  | _, none => lastTurns limit durable

/-- Whether there are older and newer turns than those of the page. -/
def pageEdges (durable rows : List HistoryTurn) (request : HistoryRequest) : Bool × Bool :=
  match rows.head?, rows.getLast? with
  | some first, some last =>
    (durable.any (·.historyTurnCursor < first.historyTurnCursor),
      durable.any (last.historyTurnCursor < ·.historyTurnCursor))
  | _, _ =>
    match request.historyRequestDirection, request.historyRequestCursor with
    | .older, some _ => (false, !durable.isEmpty)
    | .newer, some _ => (!durable.isEmpty, false)
    | _, none => (false, false)

def loadTurnPage (limit : ℕ) (durable : List HistoryTurn) (request : HistoryRequest) :
    HistoryPage :=
  let rows := loadTurnRows (max 1 limit) durable request
  { historyPageGeneration := request.historyRequestGeneration
    historyPageDirection := request.historyRequestDirection
    historyPageTurns := rows
    historyPageGenerationStart := durable.head?.elim 0 (·.historyTurnCursor)
    historyPageTotalTurns := durable.length
    historyPageHasOlder := (pageEdges durable rows request).1
    historyPageHasNewer := (pageEdges durable rows request).2 }

/-! ### The world -/

/-- A request under way, and its page once it has been read. -/
structure HistoryFlight where
  request : HistoryRequest
  page : Option HistoryPage

structure HistoryWorld where
  durable : List HistoryTurn
  window : HistoryWindow
  flights : List HistoryFlight

inductive HistoryEvent
  | request (direction : HistoryDirection)
  | read (flight : ℕ)
  | arrive (flight : ℕ)
  | fail (flight : ℕ)
  /-- The next turn becomes durable and is put in the window. -/
  | append (turn : HistoryTurn)
  | anchor (visible selected : Option HistoryCursor)

/-- What the window becomes when a page arrives; one of another generation is dropped. -/
def arrived (page : HistoryPage) (window : HistoryWindow) : HistoryWindow :=
  match applyHistoryPage page window with
  | .error _ => window
  | .ok merged => merged

def HistoryWorld.init (limit : ℕ) (generation : HistoryGeneration) (maxTurns maxBlocks maxBytes : ℤ)
    (durable : List HistoryTurn) : HistoryWorld where
  durable := durable
  window := arrived (loadTurnPage limit durable ⟨generation, .newer, none⟩)
    (emptyHistoryWindow generation maxTurns maxBlocks maxBytes)
  flights := []

def HistoryWorld.step (limit : ℕ) (w : HistoryWorld) : HistoryEvent → Option HistoryWorld
  | .request direction => do
    let request ← historyWindowRequest direction w.window
    some { w with
      window := markHistoryRequest direction w.window
      flights := w.flights ++ [⟨request, none⟩] }
  | .read i => do
    let flight ← w.flights[i]?
    some { w with
      flights := w.flights.set i
        { flight with page := some (loadTurnPage limit w.durable flight.request) } }
  | .arrive i => do
    let flight ← w.flights[i]?
    let page ← flight.page
    some { w with window := arrived page w.window, flights := w.flights.eraseIdx i }
  | .fail i => do
    let flight ← w.flights[i]?
    some { w with
      window := clearHistoryRequest flight.request w.window
      flights := w.flights.eraseIdx i }
  | .append turn =>
    if w.durable.all (·.historyTurnCursor < turn.historyTurnCursor) then
      some { w with durable := w.durable ++ [turn], window := appendHistoryTurn turn w.window }
    else none
  | .anchor visible selected =>
    some { w with window := historyWindowSetAnchors visible selected w.window }

/-! ### Exact windows -/

/-- The cursor of a turn that is not to be evicted. -/
def HistoryWindow.Anchored (window : HistoryWindow) (cursor : HistoryCursor) : Prop :=
  window.historyWindowVisibleAnchor = some cursor ∨ window.historyWindowSelectedAnchor = some cursor

/-- The turns held are a run of the durable ones, and the edges say whether there are more. -/
structure Exact (durable : List HistoryTurn) (window : HistoryWindow) : Prop where
  run : window.historyWindowTurns <:+: durable
  older : ∀ turn ∈ durable, (∀ held ∈ window.historyWindowTurns,
    turn.historyTurnCursor < held.historyTurnCursor) → window.historyWindowHasOlder = true
  newer : ∀ turn ∈ durable, (∀ held ∈ window.historyWindowTurns,
    held.historyTurnCursor < turn.historyTurnCursor) → window.historyWindowHasNewer = true
  anchored : ∀ cursor, window.Anchored cursor → cursor ∈ historyWindowCursors window
  nonempty : durable ≠ [] → window.historyWindowTurns ≠ []

/-- The indexes are those of the turns held. -/
structure Indexed (window : HistoryWindow) : Prop where
  byCursor : window.historyWindowTurnsByCursor = .ofList
    (window.historyWindowTurns.map fun turn => (turn.historyTurnCursor, turn))
  byId : window.historyWindowBlocksById = .ofList
    ((window.historyWindowTurns.flatMap (·.historyTurnBlocks)).map fun block =>
      (block.blockId, block))

/-- **The window is a run of the durable turns, and says so.** -/
structure WindowExact (durable : List HistoryTurn) (window : HistoryWindow) : Prop where
  /-- No durable turn lies between two neighbours held. -/
  contiguous : window.historyWindowTurns <:+: durable
  ascending : (historyWindowCursors window).Pairwise (· < ·)
  /-- The cursor index describes the turns held. -/
  cursors : ∀ cursor turn, window.historyWindowTurnsByCursor.lookup cursor = some turn ↔
    turn ∈ window.historyWindowTurns ∧ turn.historyTurnCursor = cursor
  /-- The block index finds a block held, of that number, whenever there is one. -/
  blocks : ∀ blockId block, window.historyWindowBlocksById.lookup blockId = some block →
    (∃ turn ∈ window.historyWindowTurns, block ∈ turn.historyTurnBlocks) ∧ block.blockId = blockId
  indexed : ∀ turn ∈ window.historyWindowTurns, ∀ block ∈ turn.historyTurnBlocks,
    window.historyWindowBlocksById.lookup block.blockId ≠ none
  /-- An anchored turn is held. -/
  anchored : ∀ cursor, window.Anchored cursor → cursor ∈ historyWindowCursors window
  hasOlder : ∀ turn ∈ durable, (∀ held ∈ window.historyWindowTurns,
    turn.historyTurnCursor < held.historyTurnCursor) → window.historyWindowHasOlder = true
  hasNewer : ∀ turn ∈ durable, (∀ held ∈ window.historyWindowTurns,
    held.historyTurnCursor < turn.historyTurnCursor) → window.historyWindowHasNewer = true

/-- No durable turn lies between the page and the turns held, and where the page has an edge of the
conversation, that is still the edge. -/
structure Fits (durable : List HistoryTurn) (page : HistoryPage) (window : HistoryWindow) :
    Prop where
  noGapBehind : ∀ first ∈ page.historyPageTurns, ∀ last ∈ window.historyWindowTurns,
    ∀ turn ∈ durable, first.historyTurnCursor < turn.historyTurnCursor →
    turn.historyTurnCursor < last.historyTurnCursor →
    turn ∈ page.historyPageTurns ∨ turn ∈ window.historyWindowTurns
  noGapAhead : ∀ first ∈ window.historyWindowTurns, ∀ last ∈ page.historyPageTurns,
    ∀ turn ∈ durable, first.historyTurnCursor < turn.historyTurnCursor →
    turn.historyTurnCursor < last.historyTurnCursor →
    turn ∈ page.historyPageTurns ∨ turn ∈ window.historyWindowTurns
  oldest : page.historyPageHasOlder = false → ∀ turn ∈ durable,
    ∃ loaded ∈ page.historyPageTurns ++ window.historyWindowTurns,
      loaded.historyTurnCursor ≤ turn.historyTurnCursor
  newest : page.historyPageHasNewer = false → ∀ turn ∈ durable,
    ∃ loaded ∈ page.historyPageTurns ++ window.historyWindowTurns,
      turn.historyTurnCursor ≤ loaded.historyTurnCursor

instance (durable : List HistoryTurn) (page : HistoryPage) (window : HistoryWindow) :
    Decidable (Fits durable page window) :=
  decidable_of_iff (_ ∧ _ ∧ _ ∧ _)
    ⟨fun ⟨h₁, h₂, h₃, h₄⟩ => ⟨h₁, h₂, h₃, h₄⟩, fun ⟨h₁, h₂, h₃, h₄⟩ => ⟨h₁, h₂, h₃, h₄⟩⟩

/-- Every page that arrives fits. -/
def PagesFit (w : HistoryWorld) : HistoryEvent → Prop
  | .arrive i => ∀ page ∈ (w.flights[i]?).bind (·.page), Fits w.durable page w.window
  | _ => True

instance (w : HistoryWorld) : ∀ e, Decidable (PagesFit w e)
  | .arrive i => inferInstanceAs (Decidable (∀ page ∈ (w.flights[i]?).bind (·.page), _))
  | .request _ | .read _ | .fail _ | .append _ | .anchor .. => inferInstanceAs (Decidable True)

/-! ### What eviction keeps -/

variable {window : HistoryWindow}

variable {turn : HistoryTurn}

/-- The edge that may be evicted is not anchored. -/
theorem not_anchored_of_canEvict {direction : HistoryDirection}
    (h : canEvict window direction = true) (hedge : edgeTurn direction window = some turn) :
    ¬ window.Anchored turn.historyTurnCursor := by
  unfold canEvict at h
  rw [hedge] at h
  simp only [Bool.and_eq_true, decide_eq_true_eq] at h
  rintro (hcursor | hcursor)
  · exact h.1 hcursor.symm
  · exact h.2 hcursor.symm

variable {durable : List HistoryTurn} {window' : HistoryWindow}

theorem Evicts.exact (hasc : Ascending (·.historyTurnCursor) durable) (h : Exact durable window)
    (hevicts : Evicts window window') : Exact durable window' := by
  obtain ⟨hmore, hedge⟩ := hevicts
  have hturns := hasc.sublist h.run.sublist
  rename_i direction
  cases direction with
  | older =>
    obtain ⟨first, rest, heq⟩ := exists_cons_of_length_pos (Nat.lt_of_succ_lt hmore)
    have hrest : (evictOne .older window).historyWindowTurns = rest := by
      show window.historyWindowTurns.tail = rest
      rw [heq, tail_cons]
    have hne : rest ≠ [] := by
      rintro rfl
      rw [heq] at hmore
      exact absurd hmore (lt_irrefl 1)
    have hkept : ¬ window.Anchored first.historyTurnCursor :=
      not_anchored_of_canEvict hedge (by rw [edgeTurn, heq]; rfl)
    rw [heq] at hturns
    refine ⟨?_, fun _ _ _ => rfl, fun turn hturn hbeyond => ?_, fun cursor hcursor => ?_, fun _ => ?_⟩
    · exact ((tail_suffix _).isInfix).trans h.run
    · refine h.newer turn hturn fun held hheld => ?_
      rw [hrest] at hbeyond
      rw [heq] at hheld
      rcases mem_cons.mp hheld with rfl | hheld
      · obtain ⟨second, hsecond⟩ := exists_mem_of_ne_nil _ hne
        exact lt_trans ((pairwise_cons.mp hturns).1 second hsecond) (hbeyond second hsecond)
      · exact hbeyond held hheld
    · have hmem := h.anchored cursor hcursor
      rw [historyWindowCursors, heq, map_cons] at hmem
      rw [historyWindowCursors, hrest]
      rcases mem_cons.mp hmem with rfl | hmem
      · exact absurd hcursor hkept
      · exact hmem
    · rw [hrest]
      exact hne
  | newer =>
    obtain ⟨rest, last, heq⟩ := (eq_nil_or_concat' window.historyWindowTurns).resolve_left (by
      rintro hnil
      rw [hnil] at hmore
      exact absurd hmore (Nat.not_lt_zero 1))
    have hrest : (evictOne .newer window).historyWindowTurns = rest := by
      show window.historyWindowTurns.dropLast = rest
      rw [heq, dropLast_concat]
    have hne : rest ≠ [] := by
      rintro rfl
      rw [heq] at hmore
      exact absurd hmore (lt_irrefl 1)
    have hkept : ¬ window.Anchored last.historyTurnCursor :=
      not_anchored_of_canEvict hedge (by rw [edgeTurn, heq, getLast?_concat])
    rw [heq] at hturns
    refine ⟨?_, fun turn hturn hbeyond => ?_, fun _ _ _ => rfl, fun cursor hcursor => ?_, fun _ => ?_⟩
    · exact (( dropLast_prefix _).isInfix).trans h.run
    · refine h.older turn hturn fun held hheld => ?_
      rw [hrest] at hbeyond
      rw [heq] at hheld
      rcases mem_append.mp hheld with hheld | hheld
      · exact hbeyond held hheld
      · rw [mem_singleton] at hheld
        obtain ⟨second, hsecond⟩ := exists_mem_of_ne_nil _ hne
        refine lt_trans (hbeyond second hsecond) ?_
        exact (pairwise_append.mp hturns).2.2 second hsecond held (hheld ▸ mem_singleton_self _)
    · have hmem := h.anchored cursor hcursor
      rw [historyWindowCursors, heq, map_append] at hmem
      rw [historyWindowCursors, hrest]
      rcases mem_append.mp hmem with hmem | hmem
      · exact hmem
      · rw [map_singleton, mem_singleton] at hmem
        subst hmem
        exact absurd hcursor hkept
    · rw [hrest]
      exact hne

theorem exact_of_evictions (hasc : Ascending (·.historyTurnCursor) durable)
    (h : Exact durable window) (hevicts : Relation.ReflTransGen Evicts window window') :
    Exact durable window' := by
  induction hevicts with
  | refl => exact h
  | tail _ hstep ih => exact hstep.exact hasc ih

theorem Evicts.total (h : Evicts window window') :
    window'.historyWindowTotalTurns = window.historyWindowTotalTurns := by
  obtain ⟨-, -⟩ := h
  rename_i direction
  cases direction <;> rfl

theorem Evicts.kept {cursor : HistoryCursor} (h : Evicts window window') :
    window'.Anchored cursor ↔ window.Anchored cursor := by
  obtain ⟨-, -⟩ := h
  rename_i direction
  cases direction <;> exact Iff.rfl

/-! ### What merging keeps -/

variable {page : HistoryPage}

/-- The turns held after a merge, before eviction, are those of the page and those held before. -/
theorem mem_mergedWindow (hasc : Ascending (·.historyTurnCursor) durable)
    (hpage : page.historyPageTurns <:+: durable) (hrun : window.historyWindowTurns <:+: durable)
    :
    turn ∈ (mergedWindow page window).historyWindowTurns
      ↔ turn ∈ page.historyPageTurns ∨ turn ∈ window.historyWindowTurns := by
  have hincoming : ∀ {t}, t ∈ uniqueTurns page.historyPageTurns ↔ t ∈ page.historyPageTurns :=
    mem_firstByKey fun a ha b hb heq => hasc.eq_of_key (hpage.subset ha) (hpage.subset hb) heq
  have hmerged : ∀ merged : List HistoryTurn, merged ⊆ durable →
      (turn ∈ uniqueTurns (sortTurns merged) ↔ turn ∈ merged) := by
    intro merged hsub
    have hperm := perm_insertionSort
      (fun a b : HistoryTurn => a.historyTurnCursor ≤ b.historyTurnCursor) merged
    refine Iff.trans (mem_firstByKey fun a ha b hb heq => ?_) hperm.mem_iff
    exact hasc.eq_of_key (hsub (hperm.subset ha)) (hsub (hperm.subset hb)) heq
  unfold mergedWindow
  cases page.historyPageDirection with
  | older =>
    refine Iff.trans (hmerged _ fun t ht => ?_) ?_
    · rcases mem_append.mp ht with ht | ht
      · exact hpage.subset (hincoming.mp ht)
      · exact hrun.subset ht
    · rw [mem_append, hincoming]
  | newer =>
    refine Iff.trans (hmerged _ fun t ht => ?_) ?_
    · rcases mem_append.mp ht with ht | ht
      · exact hrun.subset ht
      · exact hpage.subset (hincoming.mp ht)
    · rw [mem_append, hincoming, or_comm]

theorem ascending_mergedWindow (page : HistoryPage) (window : HistoryWindow) :
    Ascending (·.historyTurnCursor) (mergedWindow page window).historyWindowTurns :=
  ascending_firstByKey_insertionSort

/-- **A page that fits is merged into a run.** -/
theorem merged_exact (hasc : Ascending (·.historyTurnCursor) durable)
    (hpage : page.historyPageTurns <:+: durable) (hrun : window.historyWindowTurns <:+: durable)
    (hfits : Fits durable page window)
    (hanchored : ∀ cursor, window.Anchored cursor → cursor ∈ historyWindowCursors window)
    (hnonempty : durable ≠ [] → page.historyPageTurns ≠ [] ∨ window.historyWindowTurns ≠ []) :
    Exact durable (mergedWindow page window) := by
  have hmem : ∀ turn, turn ∈ (mergedWindow page window).historyWindowTurns
      ↔ turn ∈ page.historyPageTurns ∨ turn ∈ window.historyWindowTurns :=
    fun turn => mem_mergedWindow hasc hpage hrun
  refine ⟨?_, fun turn hturn hbeyond => ?_, fun turn hturn hbeyond => ?_,
    fun cursor hcursor => ?_, fun hdurable => ?_⟩
  · refine infix_of_convex hasc (ascending_mergedWindow page window) ?_ ?_
    · intro turn hturn
      rcases (hmem turn).mp hturn with hturn | hturn
      · exact hpage.subset hturn
      · exact hrun.subset hturn
    · intro first hfirst last hlast turn hturn hlt hgt
      rw [hmem]
      rcases (hmem first).mp hfirst with hfirst | hfirst
      · rcases (hmem last).mp hlast with hlast | hlast
        · exact .inl (mem_of_isInfix hasc hpage hfirst hlast hturn hlt hgt)
        · exact hfits.noGapBehind first hfirst last hlast turn hturn hlt hgt
      · rcases (hmem last).mp hlast with hlast | hlast
        · exact hfits.noGapAhead first hfirst last hlast turn hturn hlt hgt
        · exact .inr (mem_of_isInfix hasc hrun hfirst hlast hturn hlt hgt)
  · by_contra hfalse
    obtain ⟨loaded, hloaded, hle⟩ := hfits.oldest (Bool.not_eq_true _ ▸ hfalse) turn hturn
    exact absurd (hbeyond loaded ((hmem loaded).mpr (mem_append.mp hloaded))) (not_lt.mpr hle)
  · by_contra hfalse
    obtain ⟨loaded, hloaded, hle⟩ := hfits.newest (Bool.not_eq_true _ ▸ hfalse) turn hturn
    exact absurd (hbeyond loaded ((hmem loaded).mpr (mem_append.mp hloaded))) (not_lt.mpr hle)
  · obtain ⟨turn, hturn, rfl⟩ := mem_map.mp (hanchored cursor hcursor)
    exact mem_map_of_mem ((hmem turn).mpr (.inr hturn))
  · rcases hnonempty hdurable with hne | hne
    · obtain ⟨turn, hturn⟩ := exists_mem_of_ne_nil _ hne
      exact ne_nil_of_mem ((hmem turn).mpr (.inl hturn))
    · obtain ⟨turn, hturn⟩ := exists_mem_of_ne_nil _ hne
      exact ne_nil_of_mem ((hmem turn).mpr (.inr hturn))

theorem mergePage_turns (page : HistoryPage) (window : HistoryWindow) :
    ∃ trimmed, Relation.ReflTransGen Evicts (mergedWindow page window) trimmed ∧
      mergePage page window = setHistoryWindowTurns trimmed.historyWindowTurns trimmed :=
  ⟨_, trimWindowPrefer_evictions _ _, rfl⟩

theorem exact_setHistoryWindowTurns :
    Exact durable (setHistoryWindowTurns window.historyWindowTurns window) ↔ Exact durable window :=
  ⟨fun ⟨h₁, h₂, h₃, h₄, h₅⟩ => ⟨h₁, h₂, h₃, h₄, h₅⟩,
    fun ⟨h₁, h₂, h₃, h₄, h₅⟩ => ⟨h₁, h₂, h₃, h₄, h₅⟩⟩

theorem indexed_mergePage (page : HistoryPage) (window : HistoryWindow) :
    Indexed (mergePage page window) :=
  ⟨rfl, rfl⟩

theorem total_mergePage (page : HistoryPage) (window : HistoryWindow) :
    (mergePage page window).historyWindowTotalTurns = page.historyPageTotalTurns := by
  obtain ⟨trimmed, hevicts, heq⟩ := mergePage_turns page window
  rw [heq]
  clear heq
  show trimmed.historyWindowTotalTurns = page.historyPageTotalTurns
  induction hevicts with
  | refl => rfl
  | tail _ hstep ih => rw [hstep.total, ih]

theorem Evicts.edges (h : Evicts window window') : window.historyWindowTurns ≠ [] := by
  obtain ⟨hmore, -⟩ := h
  exact ne_nil_of_length_pos (Nat.lt_of_succ_lt hmore)

theorem Evicts.sublist (h : Evicts window window') :
    window'.historyWindowTurns <+ window.historyWindowTurns := by
  obtain ⟨-, -⟩ := h
  rename_i direction
  cases direction with
  | older => exact tail_sublist _
  | newer => exact dropLast_sublist _

theorem edges_mergePage (h : (mergePage page window).historyWindowHasOlder = true ∨
      (mergePage page window).historyWindowHasNewer = true) :
    page.historyPageHasOlder = true ∨ page.historyPageHasNewer = true ∨
      (mergedWindow page window).historyWindowTurns ≠ [] := by
  obtain ⟨trimmed, hevicts, heq⟩ := mergePage_turns page window
  rw [heq] at h
  clear heq
  rcases hevicts.cases_tail with heq | ⟨before, hbefore, hlast⟩
  · rw [heq] at h
    exact h.elim .inl fun h => .inr (.inl h)
  · -- what is evicted was held
    refine .inr (.inr fun hnil => hlast.edges ?_)
    clear h hlast
    induction hbefore with
    | refl => exact hnil
    | tail _ hstep ih => exact sublist_nil.mp (ih ▸ hstep.sublist)

theorem exact_mergePage (hasc : Ascending (·.historyTurnCursor) durable)
    (h : Exact durable (mergedWindow page window)) : Exact durable (mergePage page window) := by
  obtain ⟨trimmed, hevicts, heq⟩ := mergePage_turns page window
  rw [heq]
  exact exact_setHistoryWindowTurns.mpr (exact_of_evictions hasc h hevicts)

theorem appendHistoryTurn_eq (turn : HistoryTurn) (window : HistoryWindow) :
    appendHistoryTurn turn window = mergePage (appendPage turn window) (appendBase window) := by
  have hgeneration : (appendPage turn window).historyPageGeneration
      = (appendBase window).historyWindowGeneration := by
    show window.historyWindowGeneration = (appendBase window).historyWindowGeneration
    unfold appendBase
    split <;> rfl
  unfold appendHistoryTurn applyHistoryPage
  rw [if_neg (not_not.mpr hgeneration)]

/-- A turn at the end of the conversation fits to the window that it is put in. -/
theorem append_fits (hasc : Ascending (·.historyTurnCursor) durable)
    (h : Exact durable window) (htotal : durable ≠ [] → 0 < window.historyWindowTotalTurns)
    (hlast : ∀ old ∈ durable, old.historyTurnCursor < turn.historyTurnCursor) :
    Fits (durable ++ [turn]) (appendPage turn window) (appendBase window) := by
  have hpage : (appendPage turn window).historyPageTurns = [turn] := rfl
  have hbase : ∀ held ∈ (appendBase window).historyWindowTurns,
      held ∈ window.historyWindowTurns ∧ window.historyWindowHasNewer = false := by
    intro held hheld
    unfold appendBase at hheld
    split at hheld
    · cases hheld
    · next hnewer => exact ⟨hheld, Bool.not_eq_true _ ▸ hnewer⟩
  refine ⟨?_, ?_, fun holder old hold => ?_, fun _ old hold => ?_⟩
  · intro first hfirst last hheld _ _ hlt hgt
    rw [hpage, mem_singleton] at hfirst
    have hdurable := h.run.subset (hbase last hheld).1
    exact absurd (lt_trans hlt hgt) (lt_asymm (hfirst ▸ hlast last hdurable))
  · intro first hfirst last hlast' old hold hlt hgt
    rw [hpage, mem_singleton] at hlast'
    obtain ⟨hheld, hnewer⟩ := hbase first hfirst
    have hdurable : old ∈ durable := by
      rcases mem_append.mp hold with hold | hold
      · exact hold
      · rw [mem_singleton] at hold
        rw [hold, hlast'] at hgt
        exact absurd hgt (lt_irrefl _)
    -- the window is at the tail, so it holds all that follows
    refine .inr ?_
    have hbase' : (appendBase window).historyWindowTurns = window.historyWindowTurns := by
      unfold appendBase
      rw [if_neg (by rw [hnewer]; exact Bool.false_ne_true)]
    rw [hbase']
    by_contra hmissing
    have hnewer' := h.newer old hdurable fun held hheld' => by
      rcases lt_trichotomy held.historyTurnCursor old.historyTurnCursor with hlt' | heq | hgt'
      · exact hlt'
      · exact absurd (hasc.eq_of_key (h.run.subset hheld') hdurable heq ▸ hheld') hmissing
      · exact absurd (mem_of_isInfix hasc h.run hheld hheld' hdurable hlt hgt') hmissing
    rw [hnewer] at hnewer'
    cases hnewer'
  · rcases mem_append.mp hold with hold | hold
    · have hne : durable ≠ [] := ne_nil_of_mem hold
      unfold appendBase
      by_cases hnewer : window.historyWindowHasNewer = true
      · -- the window is replaced, and said to have older turns
        have htrue : (appendPage turn window).historyPageHasOlder = true := by
          show (if window.historyWindowHasNewer then
            decide (0 < window.historyWindowTotalTurns) else window.historyWindowHasOlder) = true
          rw [if_pos hnewer]
          exact decide_eq_true (htotal hne)
        rw [htrue] at holder
        cases holder
      · rw [if_neg hnewer]
        have hfalse : window.historyWindowHasOlder = false := by
          have hif : (appendPage turn window).historyPageHasOlder
              = window.historyWindowHasOlder := if_neg hnewer
          exact hif ▸ holder
        by_contra hnone
        have htrue := h.older old hold fun held hheld => not_le.mp fun hle =>
          hnone ⟨held, mem_append_right _ hheld, hle⟩
        rw [hfalse] at htrue
        cases htrue
    · rw [mem_singleton] at hold
      exact ⟨turn, mem_append_left _ (mem_singleton_self _), hold ▸ le_refl _⟩
  · refine ⟨turn, mem_append_left _ (mem_singleton_self _), ?_⟩
    rcases mem_append.mp hold with hold | hold
    · exact (hlast old hold).le
    · rw [mem_singleton] at hold
      exact hold ▸ le_refl _

theorem append_exact (hasc : Ascending (·.historyTurnCursor) durable)
    (h : Exact durable window) (htotal : durable ≠ [] → 0 < window.historyWindowTotalTurns)
    (hlast : ∀ old ∈ durable, old.historyTurnCursor < turn.historyTurnCursor) :
    Exact (durable ++ [turn]) (appendHistoryTurn turn window) := by
  rw [appendHistoryTurn_eq]
  refine exact_mergePage (hasc.append hlast) (merged_exact (hasc.append hlast) ?_ ?_
    (append_fits hasc h htotal hlast) ?_ fun _ => .inl (cons_ne_nil turn []))
  · exact (suffix_append _ _).isInfix
  · unfold appendBase
    split
    · exact nil_infix
    · exact h.run.trans (prefix_append _ _).isInfix
  · intro cursor hcursor
    unfold appendBase at hcursor ⊢
    split at hcursor
    · rcases hcursor with hcursor | hcursor <;> cases hcursor
    · next hnewer =>
      rw [if_neg hnewer]
      exact h.anchored cursor hcursor

/-! ### What a page holds -/

theorem lastTurns_suffix (limit : ℕ) (turns : List HistoryTurn) :
    lastTurns limit turns <:+ turns := by
  have h := reverse_suffix.mpr ( take_prefix limit turns.reverse)
  rwa [reverse_reverse] at h

theorem loadTurnRows_isInfix (hasc : Ascending (·.historyTurnCursor) durable) (limit : ℕ)
    (request : HistoryRequest) : loadTurnRows limit durable request <:+: durable := by
  have holder : ∀ cursor : HistoryCursor,
      durable.filter (·.historyTurnCursor < cursor) <:+: durable := by
    refine fun cursor => hasc.infix_filter fun a _ b _ d _ _ hb _ hdb => ?_
    rw [decide_eq_true_eq] at hb ⊢
    exact lt_trans hdb hb
  have hnewer : ∀ cursor : HistoryCursor,
      durable.filter (cursor < ·.historyTurnCursor) <:+: durable := by
    refine fun cursor => hasc.infix_filter fun a _ b _ d _ ha _ had _ => ?_
    rw [decide_eq_true_eq] at ha ⊢
    exact lt_trans ha had
  unfold loadTurnRows
  split
  · exact (lastTurns_suffix _ _).isInfix.trans (holder _)
  · exact ( take_prefix _ _).isInfix.trans (hnewer _)
  · exact (lastTurns_suffix _ _).isInfix

theorem lastTurns_ne_nil {limit : ℕ} (hlimit : 0 < limit) {turns : List HistoryTurn}
    (h : turns ≠ []) : lastTurns limit turns ≠ [] := by
  intro hnil
  rw [lastTurns, reverse_eq_nil_iff, take_eq_nil_iff, reverse_eq_nil_iff] at hnil
  exact hnil.elim hlimit.ne' h

/-- The edges of a page that is not empty are right when it is read. -/
theorem pageEdges_of_ne_nil {rows : List HistoryTurn} (request : HistoryRequest) (hrows : rows ≠ [])
    (hturn : turn ∈ durable) :
    ((pageEdges durable rows request).1 = false →
      ∃ loaded ∈ rows, loaded.historyTurnCursor ≤ turn.historyTurnCursor) ∧
    ((pageEdges durable rows request).2 = false →
      ∃ loaded ∈ rows, turn.historyTurnCursor ≤ loaded.historyTurnCursor) := by
  have hedges : pageEdges durable rows request
      = (durable.any (·.historyTurnCursor < (rows.head hrows).historyTurnCursor),
        durable.any ((rows.getLast hrows).historyTurnCursor < ·.historyTurnCursor)) := by
    unfold pageEdges
    rw [head?_eq_some_head hrows, getLast?_eq_some_getLast hrows]
  rw [hedges]
  constructor
  · intro hnone
    refine ⟨_, head_mem hrows, not_lt.mp fun hlt => ?_⟩
    exact absurd (any_eq_false.mp hnone turn hturn) (not_not.mpr (decide_eq_true hlt))
  · intro hnone
    refine ⟨_, getLast_mem hrows, not_lt.mp fun hlt => ?_⟩
    exact absurd (any_eq_false.mp hnone turn hturn) (not_not.mpr (decide_eq_true hlt))

/-! ### The invariant -/

structure PagingInvariant (w : HistoryWorld) : Prop where
  ascending : Ascending (·.historyTurnCursor) w.durable
  exact : Exact w.durable w.window
  indexed : Indexed w.window
  total : 0 ≤ w.window.historyWindowTotalTurns
  counted : w.durable ≠ [] → 0 < w.window.historyWindowTotalTurns
  edges : w.window.historyWindowHasOlder = true ∨ w.window.historyWindowHasNewer = true →
    w.durable ≠ []
  requested : ∀ flight ∈ w.flights, w.durable ≠ []
  read : ∀ flight ∈ w.flights, ∀ page, flight.page = some page →
    page.historyPageTurns <:+: w.durable ∧ 0 < page.historyPageTotalTurns

theorem arrived_eq (h : page.historyPageGeneration = window.historyWindowGeneration) :
    arrived page window = mergePage page window := by
  unfold arrived applyHistoryPage
  rw [if_neg (not_not.mpr h)]

theorem arrived_cases (page : HistoryPage) (window : HistoryWindow) :
    arrived page window = window ∨ arrived page window = mergePage page window := by
  unfold arrived applyHistoryPage
  split
  · exact .inl rfl
  · next h =>
    split at h
    · cases h
    · cases h
      exact .inr rfl

theorem init_pagingInvariant (limit : ℕ) (generation : HistoryGeneration)
    (maxTurns maxBlocks maxBytes : ℤ) {durable : List HistoryTurn}
    (hasc : Ascending (·.historyTurnCursor) durable) :
    PagingInvariant (.init limit generation maxTurns maxBlocks maxBytes durable) := by
  let request : HistoryRequest := ⟨generation, .newer, none⟩
  let page := loadTurnPage limit durable request
  let window := emptyHistoryWindow generation maxTurns maxBlocks maxBytes
  have hinit : arrived page window = mergePage page window := arrived_eq rfl
  have hrows : page.historyPageTurns = lastTurns (max 1 limit) durable := rfl
  have hrunOf : page.historyPageTurns <:+: durable := loadTurnRows_isInfix hasc _ request
  have hne : durable ≠ [] → page.historyPageTurns ≠ [] :=
    lastTurns_ne_nil (lt_of_lt_of_le Nat.zero_lt_one (le_max_left _ _))
  have hedge : ∀ turn ∈ durable, _ := fun turn hturn => pageEdges_of_ne_nil request
    (hne (ne_nil_of_mem hturn)) hturn
  have hfits : Fits durable page window := by
    refine ⟨fun _ _ last hlast => (nomatch hlast), fun first hfirst => (nomatch hfirst),
      fun holder turn hturn => ?_, fun hnewer turn hturn => ?_⟩
    · obtain ⟨loaded, hloaded, hle⟩ := (hedge turn hturn).1 holder
      exact ⟨loaded, mem_append_left _ hloaded, hle⟩
    · obtain ⟨loaded, hloaded, hle⟩ := (hedge turn hturn).2 hnewer
      exact ⟨loaded, mem_append_left _ hloaded, hle⟩
  have hexact : Exact durable (mergePage page window) := by
    refine exact_mergePage hasc (merged_exact hasc hrunOf nil_infix hfits ?_ fun h => .inl (hne h))
    rintro cursor (hcursor | hcursor) <;> cases hcursor
  have hwindow : (HistoryWorld.init limit generation maxTurns maxBlocks maxBytes durable).window
      = mergePage page window := hinit
  have htotal := total_mergePage page window
  have hlength : page.historyPageTotalTurns = durable.length := rfl
  refine ⟨hasc, hwindow ▸ hexact, hwindow ▸ indexed_mergePage page window, ?_, ?_, ?_,
    fun flight hflight => (nomatch hflight), fun flight hflight => (nomatch hflight)⟩
  · rw [hwindow, htotal, hlength]
    exact Int.natCast_nonneg _
  · intro hdurable
    rw [hwindow, htotal, hlength]
    exact Int.natCast_pos.mpr (length_pos_of_ne_nil hdurable)
  · rintro hedges rfl
    rw [hwindow] at hedges
    have hnil : page.historyPageTurns = [] := infix_nil.mp hrunOf
    have hnone : pageEdges [] page.historyPageTurns request = (false, false) := by
      rw [hnil]
      rfl
    have holder : page.historyPageHasOlder = false := congrArg Prod.fst hnone
    have hnewer : page.historyPageHasNewer = false := congrArg Prod.snd hnone
    rcases edges_mergePage hedges with h | h | h
    · rw [holder] at h
      cases h
    · rw [hnewer] at h
      cases h
    · refine h (eq_nil_iff_forall_not_mem.mpr fun turn hturn => ?_)
      rcases (mem_mergedWindow hasc hrunOf nil_infix).mp hturn with hturn | hturn
      · rw [hnil] at hturn
        cases hturn
      · cases hturn

theorem markHistoryRequest_eq (direction : HistoryDirection) (window : HistoryWindow) :
    ∃ pending, markHistoryRequest direction window
      = { window with historyWindowPending := pending } := by
  unfold markHistoryRequest
  split
  · exact ⟨window.historyWindowPending, rfl⟩
  · exact ⟨_, rfl⟩

theorem clearHistoryRequest_eq (request : HistoryRequest) (window : HistoryWindow) :
    ∃ pending, clearHistoryRequest request window
      = { window with historyWindowPending := pending } := by
  unfold clearHistoryRequest
  split
  · exact ⟨window.historyWindowPending, rfl⟩
  · exact ⟨_, rfl⟩

theorem Exact.setPending (h : Exact durable window) (pending : List HistoryDirection) :
    Exact durable { window with historyWindowPending := pending } :=
  ⟨h.run, h.older, h.newer, h.anchored, h.nonempty⟩

theorem Exact.setAnchors (h : Exact durable window) (visible selected : Option HistoryCursor) :
    Exact durable (historyWindowSetAnchors visible selected window) := by
  refine ⟨h.run, h.older, h.newer, fun cursor hcursor => ?_, h.nonempty⟩
  have hloaded : ∀ {anchor}, historyWindowSetAnchors.keepLoaded window anchor = some cursor →
      cursor ∈ historyWindowCursors window := by
    intro anchor hkeep
    obtain ⟨value, -, hvalue⟩ := bind_eq_some_iff.mp hkeep
    split at hvalue
    · next hmem =>
      cases hvalue
      exact hmem
    · cases hvalue
  rcases hcursor with hcursor | hcursor
  · exact hloaded hcursor
  · exact hloaded hcursor

theorem canRequest_of_request {direction : HistoryDirection} {request : HistoryRequest}
    (h : historyWindowRequest direction window = some request) :
    window.historyWindowHasOlder = true ∨ window.historyWindowHasNewer = true := by
  unfold historyWindowRequest at h
  split at h
  · cases h
  · next hcan =>
    unfold historyWindowCanRequest at hcan
    rw [Bool.not_eq_true', Bool.not_eq_false, Bool.and_eq_true] at hcan
    cases direction with
    | older => exact .inl hcan.2
    | newer => exact .inr hcan.2

theorem pagingInvariant_step {limit : ℕ} {w w' : HistoryWorld} {e : HistoryEvent}
    (hI : PagingInvariant w) (hfit : PagesFit w e) (h : w.step limit e = some w') :
    PagingInvariant w' := by
  cases e with
  | request direction =>
    obtain ⟨request, hrequest, h⟩ := bind_eq_some_iff.mp h
    cases h
    obtain ⟨pending, heq⟩ := markHistoryRequest_eq direction w.window
    have hdurable := hI.edges (canRequest_of_request hrequest)
    refine ⟨hI.ascending, ?_, ?_, ?_, ?_, ?_, fun _ _ => hdurable, fun flight hflight => ?_⟩
    · show Exact w.durable (markHistoryRequest direction w.window)
      rw [heq]
      exact hI.exact.setPending pending
    · show Indexed (markHistoryRequest direction w.window)
      rw [heq]
      exact ⟨hI.indexed.byCursor, hI.indexed.byId⟩
    · show 0 ≤ (markHistoryRequest direction w.window).historyWindowTotalTurns
      rw [heq]
      exact hI.total
    · show w.durable ≠ [] → 0 < (markHistoryRequest direction w.window).historyWindowTotalTurns
      rw [heq]
      exact hI.counted
    · exact fun _ => hdurable
    · intro page hpage
      rcases mem_append.mp hflight with hflight | hflight
      · exact hI.read flight hflight page hpage
      · rw [mem_singleton] at hflight
        subst hflight
        cases hpage
  | read i =>
    obtain ⟨flight, hget, h⟩ := bind_eq_some_iff.mp h
    cases h
    have hdurable := hI.requested flight (mem_of_getElem? hget)
    refine ⟨hI.ascending, hI.exact, hI.indexed, hI.total, hI.counted, hI.edges,
      fun _ _ => hdurable, fun other hother page hpage => ?_⟩
    rcases mem_or_eq_of_mem_set hother with hother | rfl
    · exact hI.read other hother page hpage
    · cases hpage
      exact ⟨loadTurnRows_isInfix hI.ascending _ _,
        Int.natCast_pos.mpr (length_pos_of_ne_nil hdurable)⟩
  | arrive i =>
    obtain ⟨flight, hget, h⟩ := bind_eq_some_iff.mp h
    obtain ⟨page, hpage, h⟩ := bind_eq_some_iff.mp h
    cases h
    have hmem := mem_of_getElem? hget
    have hdurable := hI.requested flight hmem
    obtain ⟨hrunOf, hpos⟩ := hI.read flight hmem page hpage
    have hfits := hfit page (by rw [hget]; exact hpage)
    have hflights : ∀ other ∈ w.flights.eraseIdx i, other ∈ w.flights :=
      fun other hother => mem_of_mem_eraseIdx hother
    have hrest : ∀ window, Exact w.durable window → Indexed window →
        0 ≤ window.historyWindowTotalTurns → 0 < window.historyWindowTotalTurns →
        PagingInvariant { w with window := window, flights := w.flights.eraseIdx i } :=
      fun window hexact hindexed htotal hcounted => ⟨hI.ascending, hexact, hindexed, htotal,
        fun _ => hcounted, fun _ => hdurable, fun _ _ => hdurable,
        fun other hother => hI.read other (hflights other hother)⟩
    rcases arrived_cases page w.window with heq | heq
    · rw [heq]
      exact hrest _ hI.exact hI.indexed hI.total (hI.counted hdurable)
    · rw [heq]
      refine hrest _ ?_ (indexed_mergePage page w.window) ?_ ?_
      · exact exact_mergePage hI.ascending (merged_exact hI.ascending hrunOf hI.exact.run hfits
          hI.exact.anchored fun h => .inr (hI.exact.nonempty h))
      · rw [total_mergePage]
        exact hpos.le
      · rw [total_mergePage]
        exact hpos
  | fail i =>
    obtain ⟨flight, hget, h⟩ := bind_eq_some_iff.mp h
    cases h
    obtain ⟨pending, heq⟩ := clearHistoryRequest_eq flight.request w.window
    have hdurable := hI.requested flight (mem_of_getElem? hget)
    rw [heq]
    exact ⟨hI.ascending, hI.exact.setPending pending,
      ⟨hI.indexed.byCursor, hI.indexed.byId⟩, hI.total, hI.counted, fun _ => hdurable,
      fun _ _ => hdurable, fun other hother => hI.read other (mem_of_mem_eraseIdx hother)⟩
  | append turn =>
    simp only [HistoryWorld.step] at h
    split at h
    · next hlast =>
      cases h
      have hlast' : ∀ old ∈ w.durable, old.historyTurnCursor < turn.historyTurnCursor :=
        fun old hold => decide_eq_true_eq.mp (all_eq_true.mp hlast old hold)
      have hne : w.durable ++ [turn] ≠ [] := append_ne_nil_of_right_ne_nil _ (cons_ne_nil _ _)
      have htotal : (appendHistoryTurn turn w.window).historyWindowTotalTurns
          = w.window.historyWindowTotalTurns + 1 := by
        rw [appendHistoryTurn_eq, total_mergePage]
        rfl
      have hnonneg := hI.total
      refine ⟨hI.ascending.append hlast', append_exact hI.ascending hI.exact hI.counted hlast',
        ?_, ?_, fun _ => ?_, fun _ => hne, fun _ _ => hne, fun flight hflight page hpage => ?_⟩
      · show Indexed (appendHistoryTurn turn w.window)
        rw [appendHistoryTurn_eq]
        exact indexed_mergePage _ _
      · show 0 ≤ (appendHistoryTurn turn w.window).historyWindowTotalTurns
        omega
      · show 0 < (appendHistoryTurn turn w.window).historyWindowTotalTurns
        omega
      · obtain ⟨hrunOf, hpos⟩ := hI.read flight hflight page hpage
        exact ⟨hrunOf.trans (prefix_append _ _).isInfix, hpos⟩
    · cases h
  | anchor visible selected =>
    cases h
    exact ⟨hI.ascending, hI.exact.setAnchors visible selected,
      ⟨hI.indexed.byCursor, hI.indexed.byId⟩, hI.total, hI.counted, hI.edges, hI.requested, hI.read⟩

theorem windowExact_of_exact (hasc : Ascending (·.historyTurnCursor) durable)
    (h : Exact durable window) (hindexed : Indexed window) : WindowExact durable window := by
  have hturns := hasc.sublist h.run.sublist
  refine ⟨h.run, pairwise_map.mpr hturns, fun cursor turn => ?_, fun blockId block hblock => ?_,
    fun turn hturn block hblock hnone => ?_, h.anchored, h.older, h.newer⟩
  · rw [hindexed.byCursor]
    constructor
    · intro hlookup
      obtain ⟨found, hfound, heq⟩ := mem_map.mp (FinMap.mem_of_lookup_ofList hlookup)
      cases heq
      exact ⟨hfound, rfl⟩
    · rintro ⟨hturn, rfl⟩
      refine FinMap.lookup_ofList_of_unique (fun other hother => ?_)
        (mem_map_of_mem (f := fun turn => (turn.historyTurnCursor, turn)) hturn)
      obtain ⟨found, hfound, heq⟩ := mem_map.mp hother
      obtain ⟨hcursor, rfl⟩ := Prod.mk.inj heq
      exact hturns.eq_of_key hfound hturn hcursor
  · rw [hindexed.byId] at hblock
    obtain ⟨found, hfound, heq⟩ := mem_map.mp (FinMap.mem_of_lookup_ofList hblock)
    cases heq
    exact ⟨mem_flatMap.mp hfound, rfl⟩
  · rw [hindexed.byId, FinMap.lookup_ofList_eq_none_iff] at hnone
    exact hnone block (mem_map_of_mem (f := fun block => (block.blockId, block))
      (mem_flatMap.mpr ⟨turn, hturn, hblock⟩))

/-- Only an append to a window away from the tail lets go of an anchored turn: it starts a new
window. -/
def KeepsAnchored (w : HistoryWorld) (e : HistoryEvent) (w' : HistoryWorld) : Prop :=
  ∀ cursor, w.window.Anchored cursor → cursor ∈ historyWindowCursors w'.window ∨
    ∃ turn, e = .append turn ∧ w.window.historyWindowHasNewer = true

theorem anchored_mergePage {cursor : HistoryCursor} (h : window.Anchored cursor) :
    (mergePage page window).Anchored cursor := by
  obtain ⟨trimmed, hevicts, heq⟩ := mergePage_turns page window
  rw [heq]
  clear heq
  show trimmed.Anchored cursor
  induction hevicts with
  | refl => exact h
  | tail _ hstep ih => exact hstep.kept.mpr ih

theorem keepsAnchored_step {limit : ℕ} {w w' : HistoryWorld} {e : HistoryEvent}
    (hI : PagingInvariant w) (hfit : PagesFit w e) (h : w.step limit e = some w') :
    KeepsAnchored w e w' := by
  have hI' := pagingInvariant_step hI hfit h
  intro cursor hcursor
  have hheld := hI.exact.anchored cursor hcursor
  cases e with
  | request direction =>
    obtain ⟨request, -, h⟩ := bind_eq_some_iff.mp h
    cases h
    obtain ⟨pending, heq⟩ := markHistoryRequest_eq direction w.window
    refine .inl ?_
    show cursor ∈ historyWindowCursors (markHistoryRequest direction w.window)
    rw [heq]
    exact hheld
  | read i =>
    obtain ⟨flight, -, h⟩ := bind_eq_some_iff.mp h
    cases h
    exact .inl hheld
  | arrive i =>
    obtain ⟨flight, -, h⟩ := bind_eq_some_iff.mp h
    obtain ⟨page, -, h⟩ := bind_eq_some_iff.mp h
    cases h
    refine .inl (hI'.exact.anchored cursor ?_)
    show (arrived page w.window).Anchored cursor
    rcases arrived_cases page w.window with heq | heq
    · rw [heq]
      exact hcursor
    · rw [heq]
      exact anchored_mergePage hcursor
  | fail i =>
    obtain ⟨flight, -, h⟩ := bind_eq_some_iff.mp h
    cases h
    obtain ⟨pending, heq⟩ := clearHistoryRequest_eq flight.request w.window
    refine .inl ?_
    show cursor ∈ historyWindowCursors (clearHistoryRequest flight.request w.window)
    rw [heq]
    exact hheld
  | append turn =>
    by_cases hnewer : w.window.historyWindowHasNewer = true
    · exact .inr ⟨turn, rfl, hnewer⟩
    · simp only [HistoryWorld.step] at h
      split at h
      · cases h
        refine .inl (hI'.exact.anchored cursor ?_)
        show (appendHistoryTurn turn w.window).Anchored cursor
        rw [appendHistoryTurn_eq, appendBase, if_neg hnewer]
        exact anchored_mergePage hcursor
      · cases h
  | anchor visible selected =>
    cases h
    exact .inl hheld

def plainTurn (cursor : HistoryCursor) : HistoryTurn := ⟨cursor, [], .empty⟩

/-- Pages of older and newer turns arrive, and a turn is appended. -/
def pagedRun : List HistoryEvent :=
  [.request .older, .read 0, .arrive 0, .anchor (some 2) none, .request .newer, .read 0, .arrive 0,
    .append (plainTurn 4)]

/-- A page of the turns before 3 is read, and arrives when 3 is no longer held. -/
def lateRun : List HistoryEvent :=
  [.request .older, .read 0, .append (plainTurn 4), .append (plainTurn 5), .arrive 0]

end TUI

end HaskellAgent
