import HaskellAgent.Loop.InputItems
import HaskellAgent.TUI.TextWidth

/-!
# Wrapping styled text

Spans of text with an attribute are cut into cells, one for each grapheme, and the cells are put into
rows that fit a width.  Code is broken behind white space and keeps all of it.

The attributes are an arbitrary type.
-/

open List

namespace HaskellAgent
namespace MarkdownWrap

open TextWidth

variable {α : Type*}

structure StyledCell (α : Type*) where
  attr : α
  cluster : Text
  cellWidth : ℕ
  deriving DecidableEq

def styledCells (tables : WidthTables) (spans : List (α × Text)) : List (StyledCell α) :=
  spans.flatMap fun (attr, text) =>
    (graphemeClusters tables text).map fun cluster =>
      ⟨attr, cluster, graphemeCellWidth tables cluster⟩

def styledCellIsSpace (cell : StyledCell α) : Bool :=
  !cell.cluster.isEmpty && cell.cluster.all isSpace

/-- The characters of spans, each with its attribute. -/
def expand (spans : List (α × Text)) : List (α × Char) :=
  spans.flatMap fun span => span.2.map fun character => (span.1, character)

/-- The characters of cells, each with its attribute. -/
def expandCells (cells : List (StyledCell α)) : List (α × Char) :=
  cells.flatMap fun cell => cell.cluster.map fun character => (cell.attr, character)

@[simp] theorem expand_append (spans others : List (α × Text)) :
    expand (spans ++ others) = expand spans ++ expand others := flatMap_append

@[simp] theorem expandCells_cons (cell : StyledCell α) (cells : List (StyledCell α)) :
    expandCells (cell :: cells)
      = cell.cluster.map (fun character => (cell.attr, character)) ++ expandCells cells := rfl

theorem expandCells_styledCells (tables : WidthTables) (spans : List (α × Text)) :
    expandCells (styledCells tables spans) = expand spans := by
  induction spans with
  | nil => rfl
  | cons span spans ih =>
    have hspan : expandCells ((graphemeClusters tables span.2).map fun cluster =>
        ⟨span.1, cluster, graphemeCellWidth tables cluster⟩)
          = span.2.map fun character => (span.1, character) := by
      rw [expandCells, flatMap_map]
      dsimp only
      rw [flatMap_def, ← map_flatten, graphemeClusters_flatten]
    rw [styledCells, flatMap_cons, expandCells, flatMap_append]
    exact congrArg₂ (· ++ ·) hspan ih

theorem cluster_ne_nil_of_mem {tables : WidthTables} {spans : List (α × Text)}
    {cell : StyledCell α} (h : cell ∈ styledCells tables spans) : cell.cluster ≠ [] := by
  obtain ⟨span, _, hspan⟩ := mem_flatMap.1 h
  obtain ⟨cluster, hcluster, rfl⟩ := List.mem_map.1 hspan
  exact graphemeClusters_ne_nil tables hcluster

theorem map_snd_expand (spans : List (α × Text)) :
    (expand spans).map Prod.snd = spans.flatMap Prod.snd := by
  rw [expand, map_flatMap]
  refine flatMap_congr fun span _ => ?_
  rw [List.map_map]
  exact List.map_id' span.2

/-! ### Grouping -/

section Grouping

variable [DecidableEq α]

/-- A cell with the attribute of the group in front of it joins that group. -/
def appendCell (grouped : List (α × Text)) (cell : StyledCell α) : List (α × Text) :=
  match grouped with
  | (previousAttr, previousText) :: rest =>
    if previousAttr = cell.attr then (previousAttr, previousText ++ cell.cluster) :: rest
    else (cell.attr, cell.cluster) :: grouped
  | [] => [(cell.attr, cell.cluster)]

def groupStyledCells (cells : List (StyledCell α)) : List (α × Text) :=
  (cells.foldl appendCell []).reverse

theorem expand_appendCell (grouped : List (α × Text)) (cell : StyledCell α) :
    expand (appendCell grouped cell).reverse
      = expand grouped.reverse ++ cell.cluster.map fun character => (cell.attr, character) := by
  match grouped with
  | [] => simp [appendCell, expand]
  | (previousAttr, previousText) :: rest =>
    rw [appendCell]
    split
    · rename_i hattr
      simp [expand, hattr]
    · simp [expand]

/-- **Grouping keeps every character and its attribute.** -/
theorem expand_groupStyledCells (cells : List (StyledCell α)) :
    expand (groupStyledCells cells) = expandCells cells := by
  have hfold : ∀ grouped : List (α × Text),
      expand (cells.foldl appendCell grouped).reverse
        = expand grouped.reverse ++ expandCells cells := by
    induction cells with
    | nil => exact fun grouped => (List.append_nil _).symm
    | cons cell cells ih =>
      intro grouped
      rw [foldl_cons, ih, expand_appendCell, append_assoc, expandCells_cons]
  exact hfold []

theorem expand_flatten_map (rows : List (List (StyledCell α))) :
    expand (rows.map groupStyledCells).flatten = expandCells rows.flatten := by
  induction rows with
  | nil => rfl
  | cons row rows ih =>
    rw [map_cons, flatten_cons, expand_append, expand_groupStyledCells, ih,
      flatten_cons, expandCells, expandCells, expandCells, flatMap_append]

end Grouping

/-! ### Rows -/

def rowWidth (row : List (StyledCell α)) : ℕ := (row.map StyledCell.cellWidth).sum

@[simp] theorem rowWidth_nil : rowWidth ([] : List (StyledCell α)) = 0 := rfl

@[simp] theorem rowWidth_cons (cell : StyledCell α) (row : List (StyledCell α)) :
    rowWidth (cell :: row) = cell.cellWidth + rowWidth row := rfl

@[simp] theorem rowWidth_append (row other : List (StyledCell α)) :
    rowWidth (row ++ other) = rowWidth row + rowWidth other := by
  rw [rowWidth, map_append, sum_append]
  rfl

/-- A row is not wider than the width, or a single cell is, and the others take no width. -/
def RowFits (width : ℕ) (row : List (StyledCell α)) : Prop :=
  rowWidth row ≤ width ∨
    ∃ before cell after, row = before ++ cell :: after ∧ rowWidth before = 0 ∧
      rowWidth after = 0 ∧ width < cell.cellWidth

theorem RowFits.of_append {width : ℕ} {row rest : List (StyledCell α)}
    (h : RowFits width (row ++ rest)) : RowFits width row := by
  obtain hwidth | ⟨before, cell, after, heq, hbefore, hafter, hwide⟩ := h
  · rw [rowWidth_append] at hwidth
    exact Or.inl (by omega)
  · obtain ⟨middle, rfl, hmiddle⟩ | ⟨middle, rfl, hmiddle⟩ := append_eq_append_iff.1 heq
    · -- The row ends in front of the wide cell.
      rw [rowWidth_append] at hbefore
      exact Or.inl (by omega)
    · cases middle with
      | nil => exact Or.inl (by rw [List.append_nil]; omega)
      | cons head middle =>
        rw [cons_append, List.cons.injEq] at hmiddle
        obtain ⟨rfl, rfl⟩ := hmiddle
        rw [rowWidth_append] at hafter
        exact Or.inr ⟨before, cell, middle, rfl, hbefore, by omega, hwide⟩

/-! ### The cells of a row -/

def takeFittingFrom (width : ℕ) :
    ℕ → List (StyledCell α) → List (StyledCell α) → List (StyledCell α) × List (StyledCell α)
  | _, taken, [] => (taken.reverse, [])
  | used, taken, cell :: rest =>
    if 0 < used ∧ width < used + cell.cellWidth then (taken.reverse, cell :: rest)
    else takeFittingFrom width (used + cell.cellWidth) (cell :: taken) rest

def takeFitting (width : ℕ) (cells : List (StyledCell α)) :
    List (StyledCell α) × List (StyledCell α) :=
  takeFittingFrom width 0 [] cells

theorem takeFittingFrom_append (width used : ℕ) (taken cells : List (StyledCell α)) :
    (takeFittingFrom width used taken cells).1 ++ (takeFittingFrom width used taken cells).2
      = taken.reverse ++ cells := by
  induction cells generalizing used taken with
  | nil => rfl
  | cons cell rest ih =>
    rw [takeFittingFrom]
    split
    · rfl
    · rw [ih, reverse_cons, append_assoc, singleton_append]

theorem takeFitting_append (width : ℕ) (cells : List (StyledCell α)) :
    (takeFitting width cells).1 ++ (takeFitting width cells).2 = cells :=
  takeFittingFrom_append width 0 [] cells

/-- What has been taken stays taken. -/
theorem takeFittingFrom_fst (width used : ℕ) (taken cells : List (StyledCell α)) :
    ∃ more, (takeFittingFrom width used taken cells).1 = taken.reverse ++ more := by
  induction cells generalizing used taken with
  | nil => exact ⟨[], (List.append_nil _).symm⟩
  | cons cell rest ih =>
    rw [takeFittingFrom]
    split
    · exact ⟨[], (List.append_nil _).symm⟩
    · obtain ⟨more, hmore⟩ := ih (used + cell.cellWidth) (cell :: taken)
      exact ⟨cell :: more, by rw [hmore, reverse_cons, append_assoc]; rfl⟩

/-- The first cell is always taken. -/
theorem takeFitting_cons (width : ℕ) (cell : StyledCell α) (rest : List (StyledCell α)) :
    ∃ more, (takeFitting width (cell :: rest)).1 = cell :: more := by
  rw [takeFitting, takeFittingFrom, if_neg fun h => absurd h.1 (lt_irrefl 0)]
  exact takeFittingFrom_fst width _ [cell] rest

theorem takeFittingFrom_fits {width used : ℕ} {taken cells : List (StyledCell α)}
    (hused : rowWidth taken.reverse = used) (hfits : RowFits width taken.reverse) :
    RowFits width (takeFittingFrom width used taken cells).1 := by
  induction cells generalizing used taken with
  | nil => exact hfits
  | cons cell rest ih =>
    rw [takeFittingFrom]
    split
    · exact hfits
    · rename_i hroom
      have hwidth : rowWidth (cell :: taken).reverse = used + cell.cellWidth := by
        rw [reverse_cons, rowWidth_append, hused, rowWidth_cons, rowWidth_nil, Nat.add_zero]
      refine ih hwidth ?_
      by_cases hnarrow : used + cell.cellWidth ≤ width
      · exact Or.inl (hwidth.trans_le hnarrow)
      · -- Only a row that takes no width yet is given a cell that does not fit.
        have hzero : used = 0 := by omega
        refine Or.inr ⟨taken.reverse, cell, [], reverse_cons, hused.trans hzero, rfl, ?_⟩
        omega

theorem takeFitting_fits (width : ℕ) (cells : List (StyledCell α)) :
    RowFits width (takeFitting width cells).1 :=
  takeFittingFrom_fits rfl (Or.inl (Nat.zero_le _))

/-- The position of the last space of a row. -/
def lastSpaceIndex (cells : List (StyledCell α)) : Option ℕ :=
  cells.zipIdx.foldl
    (fun found (cell, index) => if styledCellIsSpace cell then some index else found) none

/-! ### Code -/

/-- The rows of code: a row is broken behind its last space, unless it fits or begins with it. -/
def wrapCodeCells (width : ℕ) : List (StyledCell α) → List (List (StyledCell α))
  | [] => [[]]
  | cell :: cells =>
    let fitting := (takeFitting width (cell :: cells)).1
    let overflow := (takeFitting width (cell :: cells)).2
    if overflow.isEmpty then [fitting]
    else
      match lastSpaceIndex fitting with
      | some index =>
        if 0 < index then
          fitting.take (index + 1) :: wrapCodeCells width (fitting.drop (index + 1) ++ overflow)
        else fitting :: wrapCodeCells width overflow
      | none => fitting :: wrapCodeCells width overflow
termination_by cells => cells.length
decreasing_by
  all_goals
    obtain ⟨more, hmore⟩ := takeFitting_cons width cell cells
    have hlength := congrArg List.length (takeFitting_append width (cell :: cells))
    rw [hmore, length_append, length_cons] at hlength
    simp +zetaDelta only [length_append, length_drop, hmore, length_cons] at *
    omega

/-- One row is taken off the front of the cells. -/
theorem wrapCodeCells_step (width : ℕ) (cell : StyledCell α) (cells : List (StyledCell α)) :
    ∃ row rest, row ++ rest = cell :: cells ∧ row ≠ [] ∧ RowFits width row ∧
      wrapCodeCells width (cell :: cells)
        = row :: (if rest = [] then [] else wrapCodeCells width rest) := by
  obtain ⟨more, hmore⟩ := takeFitting_cons width cell cells
  have happend := takeFitting_append width (cell :: cells)
  have hfits := takeFitting_fits width (cell :: cells)
  rw [wrapCodeCells]
  set fitting := (takeFitting width (cell :: cells)).1
  set overflow := (takeFitting width (cell :: cells)).2
  have hfitting : fitting ≠ [] := hmore ▸ cons_ne_nil cell more
  by_cases hoverflow : overflow = []
  · refine ⟨fitting, [], ?_, hfitting, hfits, ?_⟩
    · rw [← happend, hoverflow]
    · rw [hoverflow]
      rfl
  · have hwhole : ∃ row rest, row ++ rest = cell :: cells ∧ row ≠ [] ∧ RowFits width row ∧
        fitting :: wrapCodeCells width overflow
          = row :: (if rest = [] then [] else wrapCodeCells width rest) :=
      ⟨fitting, overflow, happend, hfitting, hfits, by rw [if_neg hoverflow]⟩
    rw [if_neg (by rwa [List.isEmpty_iff])]
    split
    · rename_i index hindex
      split
      · have hsplit := take_append_drop (index + 1) fitting
        refine ⟨fitting.take (index + 1), fitting.drop (index + 1) ++ overflow, ?_, ?_, ?_, ?_⟩
        · rw [← append_assoc, hsplit, happend]
        · rw [hmore, take_succ_cons]
          exact cons_ne_nil _ _
        · exact RowFits.of_append ((congrArg (RowFits width) hsplit).mpr hfits)
        · rw [if_neg fun hnil => hoverflow (append_eq_nil_iff.1 hnil).2]
      · exact hwhole
    · exact hwhole

/-- What holds of the rows of code. -/
theorem wrapCodeCells_spec (width : ℕ) (cells : List (StyledCell α)) :
    (wrapCodeCells width cells).flatten = cells ∧
      (∀ row ∈ wrapCodeCells width cells, RowFits width row) ∧
      (cells ≠ [] → ∀ row ∈ wrapCodeCells width cells, row ≠ []) := by
  induction hlength : cells.length using Nat.strong_induction_on generalizing cells with
  | _ n ih =>
    cases cells with
    | nil =>
      rw [wrapCodeCells]
      refine ⟨rfl, fun row hmem => ?_, fun hne => absurd rfl hne⟩
      rw [mem_singleton.1 hmem]
      exact Or.inl (Nat.zero_le _)
    | cons cell cells =>
      obtain ⟨row, rest, happend, hrow, hfits, hstep⟩ := wrapCodeCells_step width cell cells
      rw [hstep]
      by_cases hrest : rest = []
      · rw [if_pos hrest]
        refine ⟨?_, fun other hmem => ?_, fun _ other hmem => ?_⟩
        · rw [flatten_singleton, ← happend, hrest, List.append_nil]
        · exact mem_singleton.1 hmem ▸ hfits
        · exact mem_singleton.1 hmem ▸ hrow
      · have hshorter : rest.length < n := by
          have hwhole := congrArg List.length happend
          have hpos := length_pos_iff.2 hrow
          rw [length_append] at hwhole
          omega
        obtain ⟨hflatten, hall, hnonempty⟩ := ih rest.length hshorter rest rfl
        rw [if_neg hrest]
        refine ⟨?_, fun other hmem => ?_, fun _ other hmem => ?_⟩
        · rw [flatten_cons, hflatten, happend]
        · exact (mem_cons.1 hmem).elim (fun heq => heq ▸ hfits) (hall other)
        · exact (mem_cons.1 hmem).elim (fun heq => heq ▸ hrow) (hnonempty hrest other)

section Code

variable [DecidableEq α]

def wrapStyledCode (tables : WidthTables) (width : ℤ) (spans : List (α × Text)) :
    List (List (α × Text)) :=
  (wrapCodeCells (max 1 width).toNat (styledCells tables spans)).map groupStyledCells

/-- **Wrapping code loses nothing.**  The rows are the cells of the spans in their order; no row is
empty unless there are no cells, and none is too wide.  What is rendered has the characters of the
spans, each with its attribute. -/
theorem wrapStyledCode_lossless (tables : WidthTables) (width : ℤ) (spans : List (α × Text)) :
    ∃ rows : List (List (StyledCell α)),
      wrapStyledCode tables width spans = rows.map groupStyledCells ∧
      rows.flatten = styledCells tables spans ∧
      (styledCells tables spans ≠ [] →
        ∀ row ∈ rows, row ≠ [] ∧ expand (groupStyledCells row) ≠ []) ∧
      (∀ row ∈ rows, RowFits (max 1 width).toNat row) ∧
      (∀ row ∈ rows, expand (groupStyledCells row) = expandCells row) ∧
      expand (wrapStyledCode tables width spans).flatten = expand spans ∧
      ((wrapStyledCode tables width spans).flatten.flatMap Prod.snd) = spans.flatMap Prod.snd := by
  obtain ⟨hflatten, hfits, hnonempty⟩ :=
    wrapCodeCells_spec (max 1 width).toNat (styledCells tables spans)
  have hexpand : expand (wrapStyledCode tables width spans).flatten = expand spans := by
    rw [wrapStyledCode, expand_flatten_map, hflatten, expandCells_styledCells]
  refine ⟨_, rfl, hflatten, fun hcells row hmem => ⟨hnonempty hcells row hmem, ?_⟩, hfits,
    fun row _ => expand_groupStyledCells row, hexpand, ?_⟩
  · obtain ⟨cell, rest, rfl⟩ := exists_cons_of_ne_nil (hnonempty hcells row hmem)
    have hcell : cell ∈ styledCells tables spans :=
      hflatten ▸ mem_flatten.2 ⟨_, hmem, mem_cons_self⟩
    rw [expand_groupStyledCells, expandCells_cons]
    intro hnil
    exact cluster_ne_nil_of_mem hcell (map_eq_nil_iff.1 (append_eq_nil_iff.1 hnil).1)
  · rw [← map_snd_expand, hexpand, map_snd_expand]

end Code

end MarkdownWrap
end HaskellAgent
