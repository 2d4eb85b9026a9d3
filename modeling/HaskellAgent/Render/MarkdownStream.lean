import HaskellAgent.Lib.JoinTrimmed
import HaskellAgent.Render.MarkdownFragment
import HaskellAgent.TUI.TextWidth

/-!
# A stream of Markdown

Markdown that comes in chunks is rendered as soon as its form is known.  A stream stands at the start of
a line, in prose, in a fenced block, behind a line that may be the header of a table, or in a table;
what cannot be rendered yet is held back.

A call gives the pieces that it hands to a renderer, each with its source.  What is a letter or a digit
of some script, and the tables of the terminal, are parameters.
-/

open List

namespace HaskellAgent
namespace Markdown

open TextWidth

/-! ### Fences -/

structure FenceMarker where
  fenceCharacter : Char
  fenceLength : ℕ
  deriving DecidableEq

def stripFenceIndent (line : Text) : Option (ℕ × Text) :=
  let spaces := line.takeWhile (· = ' ')
  if spaces.length ≤ 3 then some (spaces.length, line.dropWhile (· = ' ')) else none

def fenceOpener (line : Text) : Option (FenceMarker × Text) := do
  let (_, stripped) ← stripFenceIndent line
  let character ← stripped.head?.filter fun first => first == '`' || first == '~'
  let marker : FenceMarker := ⟨character, (stripped.takeWhile (· = character)).length⟩
  let info := (stripped.dropWhile (· = character)).trim isSpace
  if marker.fenceLength < 3 ∨ character = '`' ∧ '`' ∈ info then none else some (marker, info)

def isFenceCloser (marker : FenceMarker) (line : Text) : Bool :=
  match stripFenceIndent line with
  | none => false
  | some (_, stripped) =>
    marker.fenceLength ≤ (stripped.takeWhile (· = marker.fenceCharacter)).length
      && (stripped.dropWhile (· = marker.fenceCharacter)).all isSpace

/-! ### Tables -/

inductive TableAlignment
  | alignDefault
  | alignLeft
  | alignCenter
  | alignRight
  deriving DecidableEq

structure MarkdownTable where
  tableAlignments : List TableAlignment
  tableRows : List (List Text)
  deriving DecidableEq

def finishCell (current : List Text) : Text := current.reverse.flatten.trim isSpace

def isRowSpecial (character : Char) : Bool :=
  character == '\\' || character == '`' || character == '|'

variable {rest : Text}

theorem length_dropWhile_lt {p : Char → Bool} {character : Char} :
    (rest.dropWhile p).length < (character :: rest).length := by
  have h := (dropWhile_suffix p (l := rest)).length_le
  rw [length_cons]
  omega

theorem length_tail_dropWhile_lt {p : Char → Bool} {character next : Char} {tail : Text}
    (h : rest.dropWhile p = next :: tail) : tail.length < (character :: rest).length := by
  have hlength : (rest.dropWhile p).length < (character :: rest).length := length_dropWhile_lt
  rw [h, length_cons] at hlength
  omega

/-- The loop of `splitTableRow`.  A bar ends a cell unless it is escaped or inside code. -/
def scanRow (codeRun : Option ℕ) (current cells : List Text) (delimiterCount : ℕ)
    (trailingDelimiter : Bool) (remaining : Text) : List Text × ℕ :=
  match remaining with
  | [] =>
    ((if trailingDelimiter then cells else finishCell current :: cells).reverse, delimiterCount)
  | character :: rest =>
    if character = '\\' then
      let slashCount := (rest.takeWhile (· = '\\')).length + 1
      let afterSlashes := rest.dropWhile (· = '\\')
      let literalSlashes := List.replicate
        (if afterSlashes.head? = some '|' then slashCount / 2 else slashCount) '\\'
      match hafter : afterSlashes with
      | next :: afterPipe =>
        if next = '|' ∧ slashCount % 2 = 1 then
          scanRow codeRun (['|'] :: literalSlashes :: current) cells delimiterCount false afterPipe
        else if next = '|' ∧ codeRun = none then
          scanRow codeRun [] (finishCell (literalSlashes :: current) :: cells) (delimiterCount + 1)
            true afterPipe
        else
          scanRow codeRun (literalSlashes :: current) cells delimiterCount false afterSlashes
      | [] => scanRow codeRun (literalSlashes :: current) cells delimiterCount false []
    else if character = '`' then
      let tickCount := (rest.takeWhile (· = '`')).length + 1
      let afterTicks := rest.dropWhile (· = '`')
      let nextCodeRun :=
        match codeRun with
        | some openCount => if openCount ≤ tickCount then none else some openCount
        | none => if List.replicate tickCount '`' <:+: afterTicks then some tickCount else none
      scanRow nextCodeRun (List.replicate tickCount '`' :: current) cells delimiterCount false
        afterTicks
    else if character = '|' then
      if codeRun = none then
        scanRow codeRun [] (finishCell current :: cells) (delimiterCount + 1) true rest
      else scanRow codeRun (['|'] :: current) cells delimiterCount false rest
    else
      scanRow codeRun ((character :: rest.takeWhile fun c => !isRowSpecial c) :: current) cells
        delimiterCount false (rest.dropWhile fun c => !isRowSpecial c)
termination_by remaining.length
decreasing_by
  · exact length_tail_dropWhile_lt hafter
  · exact length_tail_dropWhile_lt hafter
  · exact length_dropWhile_lt
  · exact Nat.succ_pos _
  · exact length_dropWhile_lt
  · exact Nat.lt_succ_self _
  · exact Nat.lt_succ_self _
  · exact length_dropWhile_lt

def splitTableRow (raw : Text) : Option (List Text) :=
  let stripped := raw.trim isSpace
  let content := (stripPrefix ['|'] stripped).getD stripped
  let (cells, delimiterCount) := scanRow none [] [] 0 false content
  if 1 ≤ delimiterCount then some cells else none

def isTableRow (line : Text) : Bool := (splitTableRow line).isSome

def isSeparatorCell (cell : Text) : Bool :=
  cell.contains '-' && (cell.filter fun c => !(['-', ':', ' '].contains c)).isEmpty

def separatorAlignment (cell : Text) : TableAlignment :=
  let stripped := cell.trim isSpace
  match stripped.head? == some ':', stripped.getLast? == some ':' with
  | true, true => .alignCenter
  | true, false => .alignLeft
  | false, true => .alignRight
  | false, false => .alignDefault

def takeTableRows (lines : List Text) : Option (MarkdownTable × List Text) :=
  match lines with
  | header :: separator :: rest => do
    let headerCells ← splitTableRow header
    let separatorCells ← splitTableRow separator
    if separatorCells.length = headerCells.length ∧ separatorCells.all isSeparatorCell = true then
      some (⟨separatorCells.map separatorAlignment,
        headerCells :: (rest.takeWhile isTableRow).filterMap splitTableRow⟩,
        rest.dropWhile isTableRow)
    else none
  | _ => none

/-! ### Lines -/

def dropLineEnding (line : Text) : Text := line.rdropWhile (· = '\n')

def isPossibleTableHeader (line : Text) : Bool := (splitTableRow (dropLineEnding line)).isSome

def isTableStart (header separator : Text) : Bool :=
  (takeTableRows [dropLineEnding header, dropLineEnding separator]).isSome

def textWords (text : Text) : List Text := (text.splitOnP isSpace).filter fun word => !word.isEmpty

/-- Before its first bar the header of a table looks like prose. -/
def plausibleTableHeader (stripped : Text) : Bool :=
  (textWords stripped).length ≤ 1 || stripped.getLast?.any isSpace

/-- Whether the rest of a line may still tell what the line is. -/
def lineNeedsLookahead (line : Text) : Bool :=
  let stripped := line.dropWhile isSpace
  let run (marker : Char) := (stripped.takeWhile (· = marker)).length
  let behind (marker : Char) := stripped.dropWhile (· = marker)
  let allMarkerOrSpace (marker : Char) := stripped.all fun c => c == marker || isSpace c
  match stripped with
  | [] => true
  | character :: after =>
    let endedOrBlank := after.isEmpty || [' '].isPrefixOf after
    if character = '#' then
      run '#' ≤ 6 && ((behind '#').isEmpty || [' '].isPrefixOf (behind '#'))
    else if character = '>' then true
    else if character = '|' then true
    else if character = '`' then (behind '`').isEmpty || 3 ≤ run '`'
    else if character = '~' then (behind '~').isEmpty || 3 ≤ run '~'
    else if character = '+' then endedOrBlank
    else if character = '*' then endedOrBlank || allMarkerOrSpace '*'
    else if character = '-' then endedOrBlank || allMarkerOrSpace '-'
    else if character = '_' then allMarkerOrSpace '_'
    else if character.isDigit then
      let afterDigits := stripped.dropWhile Char.isDigit
      afterDigits.isEmpty || afterDigits == ['.'] || ['.', ' '].isPrefixOf afterDigits
    else isPossibleTableHeader line || plausibleTableHeader stripped

/-- A whole line that is a block of its own. -/
def lineIsBlock (line : Text) : Bool :=
  let stripped := (dropLineEnding line).dropWhile isSpace
  let marks := stripped.takeWhile (· = '#')
  let heading := !marks.isEmpty && marks.length ≤ 6
    && [' '].isPrefixOf (stripped.dropWhile (· = '#'))
  let quote := ['>'].isPrefixOf stripped
  let bullet := [['-', ' '], ['*', ' '], ['+', ' ']].any fun lead => lead.isPrefixOf stripped
  let ordered := !(stripped.takeWhile Char.isDigit).isEmpty
    && ['.', ' '].isPrefixOf (stripped.dropWhile Char.isDigit)
  let compact := stripped.filter fun c => !isSpace c
  let thematic (marker : Char) := 3 ≤ compact.length && compact.all (· == marker)
  heading || quote || bullet || ordered || thematic '-' || thematic '*' || thematic '_'

/-- A whole line with its end, and what is behind it. -/
def takeCompleteLine (text : Text) : Option (Text × Text) :=
  match text.dropWhile (· ≠ '\n') with
  | [] => none
  | _ :: rest => some (text.takeWhile (· ≠ '\n') ++ ['\n'], rest)

/-- The fragments of a line that has not ended, latest first, or the line and what is behind it. -/
def takeBufferedLine (fragments : List Text) (input : Text) : List Text ⊕ Text × Text :=
  match input.dropWhile (· ≠ '\n') with
  | [] => .inl (if input.isEmpty then fragments else input :: fragments)
  | _ :: rest =>
    .inr ((['\n'] :: input.takeWhile (· ≠ '\n') :: fragments).reverse.flatten, rest)

/-! ### States -/

/-- Lines that have ended and the fragments of the line that has not, each latest first. -/
structure BufferedBlock where
  completedLines : List Text
  lineFragments : List Text
  deriving DecidableEq

def bufferedBlockText (block : BufferedBlock) : Text :=
  (block.completedLines.reverse ++ block.lineFragments.reverse).flatten

inductive MarkdownStreamMode
  | lineStart
  | prose
  | fence (marker : FenceMarker) (block : BufferedBlock)
  | tableCandidate (header : Text) (fragments : List Text)
  | table (block : BufferedBlock)
  deriving DecidableEq

structure MarkdownStreamState where
  pending : Text
  context : Option Char
  streamMode : MarkdownStreamMode
  blockPending : Text
  renderWidth : Option ℤ
  deriving DecidableEq

def emptyMarkdownStreamState : MarkdownStreamState := ⟨[], none, .lineStart, [], none⟩

/-- What is handed to a renderer: a fragment behind a character, or a block for a width. -/
inductive Piece
  | fragment (context : Option Char) (source : Text)
  | buffered (width : Option ℤ) (source : Text)
  deriving DecidableEq

def Piece.source : Piece → Text
  | .fragment _ source => source
  | .buffered _ source => source

def sources (pieces : List Piece) : Text := pieces.flatMap Piece.source

@[simp] theorem sources_nil : sources [] = [] := rfl

@[simp] theorem sources_singleton (piece : Piece) : sources [piece] = piece.source :=
  flatMap_singleton _ _

@[simp] theorem sources_append (pieces others : List Piece) :
    sources (pieces ++ others) = sources pieces ++ sources others := flatMap_append

def renderBuffered (state : MarkdownStreamState) (source : Text) : Piece :=
  .buffered state.renderWidth source

@[simp] theorem renderBuffered_source (state : MarkdownStreamState) (source : Text) :
    (renderBuffered state source).source = source := rfl

/-- `flushMarkdownStreamCurrent`: the piece that is left. -/
def flushMarkdownStreamCurrent (state : MarkdownStreamState) : Piece :=
  match state.streamMode with
  | .prose => .fragment state.context state.pending
  | .lineStart => renderBuffered state state.blockPending
  | .fence _ block => renderBuffered state (bufferedBlockText block)
  | .tableCandidate header fragments =>
    renderBuffered state (header :: fragments.reverse).flatten
  | .table block => renderBuffered state (bufferedBlockText block)

/-! ### Steps -/

/-- A step ends the call, or goes on with what is left of the input. -/
inductive Outcome
  | stop (pieces : List Piece) (state : MarkdownStreamState)
  | next (pieces : List Piece) (state : MarkdownStreamState) (rest : Text)

def classifyCompleteLine (state : MarkdownStreamState) (line rest : Text) : Outcome :=
  match fenceOpener (dropLineEnding line) with
  | some (marker, _) =>
    .next [] { state with streamMode := .fence marker ⟨[line], []⟩, blockPending := [] } rest
  | none =>
    if isPossibleTableHeader line then
      .next [] { state with streamMode := .tableCandidate line [], blockPending := [] } rest
    else if lineIsBlock line then
      .next [renderBuffered state line]
        { state with streamMode := .lineStart, blockPending := [] } rest
    else .next [] { state with streamMode := .prose, blockPending := [] } (line ++ rest)

def feedLineStart (state : MarkdownStreamState) (input : Text) : Outcome :=
  let buffered := state.blockPending ++ input
  match takeCompleteLine buffered with
  | some (line, rest) => classifyCompleteLine { state with blockPending := [] } line rest
  | none =>
    if lineNeedsLookahead buffered then .stop [] { state with blockPending := buffered }
    else .next [] { state with streamMode := .prose, blockPending := [] } buffered

def feedFence (marker : FenceMarker) (block : BufferedBlock) (state : MarkdownStreamState)
    (input : Text) : Outcome :=
  match takeBufferedLine block.lineFragments input with
  | .inl fragments =>
    .stop [] { state with streamMode := .fence marker { block with lineFragments := fragments } }
  | .inr (line, rest) =>
    if isFenceCloser marker (dropLineEnding line) then
      let source := (line :: block.completedLines).reverse.flatten
      .next [renderBuffered state source]
        { state with streamMode := .lineStart, pending := [], context := none } rest
    else
      .next [] { state with streamMode := .fence marker ⟨line :: block.completedLines, []⟩ } rest

def feedTableCandidate (header : Text) (fragments : List Text) (state : MarkdownStreamState)
    (input : Text) : Outcome :=
  match takeBufferedLine fragments input with
  | .inr (separator, rest) =>
    if isTableStart header separator then
      .next [] { state with streamMode := .table ⟨[separator, header], []⟩ } rest
    else
      .next [renderBuffered state header] { state with streamMode := .lineStart }
        (separator ++ rest)
  | .inl remaining => .stop [] { state with streamMode := .tableCandidate header remaining }

def feedTable (block : BufferedBlock) (state : MarkdownStreamState) (input : Text) : Outcome :=
  match takeBufferedLine block.lineFragments input with
  | .inl fragments =>
    .stop [] { state with streamMode := .table { block with lineFragments := fragments } }
  | .inr (line, rest) =>
    if isPossibleTableHeader line then
      .next [] { state with streamMode := .table ⟨line :: block.completedLines, []⟩ } rest
    else
      let table := block.completedLines.reverse.flatten
      .next [renderBuffered state table] { state with streamMode := .lineStart } (line ++ rest)

section Stream

variable (isAlphaNum : Char → Bool) (tables : WidthTables)

def feedProse (state : MarkdownStreamState) (input : Text) : Outcome :=
  let linePart := input.takeWhile (· ≠ '\n')
  match input.dropWhile (· ≠ '\n') with
  | [] =>
    let parsed := splitMarkdownFragment isAlphaNum state.context (state.pending ++ linePart)
    let (stable, graphemePending) := splitTerminalGraphemeSuffix tables parsed.markdownReady
    let reparsed :=
      if graphemePending.isEmpty then ⟨parsed.markdownReady, [], parsed.markdownPrevChar⟩
      else splitMarkdownFragment isAlphaNum state.context stable
    let pending' := reparsed.markdownPending ++ graphemePending ++ parsed.markdownPending
    .stop [.fragment state.context reparsed.markdownReady]
      { state with
        pending := pending', context := reparsed.markdownPrevChar, streamMode := .prose }
  | _ :: rest =>
    let source := state.pending ++ linePart ++ ['\n']
    let parsed := splitMarkdownFragment isAlphaNum state.context source
    .next [.fragment state.context (parsed.markdownReady ++ parsed.markdownPending)]
      { state with pending := [], context := none, streamMode := .lineStart, blockPending := [] }
      rest

def stepMarkdownStream (state : MarkdownStreamState) (input : Text) : Outcome :=
  match state.streamMode with
  | .lineStart => feedLineStart state input
  | .prose => feedProse isAlphaNum tables state input
  | .fence marker block => feedFence marker block state input
  | .tableCandidate header fragments => feedTableCandidate header fragments state input
  | .table block => feedTable block state input

end Stream

/-! ### Every step makes progress -/

def MarkdownStreamMode.fragments : MarkdownStreamMode → List Text
  | .fence _ block => block.lineFragments
  | .tableCandidate _ fragments => fragments
  | .table block => block.lineFragments
  | _ => []

def MarkdownStreamMode.rank : MarkdownStreamMode → ℕ
  | .prose => 0
  | .lineStart => 1
  | _ => 2

/-- The characters that may still be read, again or for the first time. -/
def unread (state : MarkdownStreamState) (input : Text) : ℕ :=
  state.blockPending.length + state.streamMode.fragments.flatten.length + input.length

theorem eq_of_dropWhile_cons {text : Text} {c : Char} (h : text.dropWhile (· ≠ '\n') = c :: rest) :
    text = text.takeWhile (· ≠ '\n') ++ '\n' :: rest := by
  have hc : c = '\n' := by
    have hnot := head_dropWhile_not (· ≠ '\n') (l := text) (by rw [h]; exact cons_ne_nil _ _)
    simp only [h, head_cons] at hnot
    simpa using hnot
  calc text = text.takeWhile (· ≠ '\n') ++ text.dropWhile (· ≠ '\n') :=
        takeWhile_append_dropWhile.symm
    _ = text.takeWhile (· ≠ '\n') ++ '\n' :: rest := by rw [h, hc]

theorem takeCompleteLine_eq_some {text line : Text} (h : takeCompleteLine text = some (line, rest))
    : text = line ++ rest ∧ line ≠ [] := by
  unfold takeCompleteLine at h
  split at h
  · exact absurd h (by simp)
  · rename_i c tail htail
    obtain ⟨rfl, rfl⟩ := Prod.mk.inj (Option.some.inj h)
    refine ⟨?_, by simp⟩
    rw [append_assoc, singleton_append]
    exact eq_of_dropWhile_cons htail

variable {input : Text}

theorem takeBufferedLine_eq_inl {fragments remaining : List Text}
    (h : takeBufferedLine fragments input = .inl remaining) :
    remaining.reverse.flatten = fragments.reverse.flatten ++ input := by
  unfold takeBufferedLine at h
  split at h
  · obtain rfl := Sum.inl.inj h
    split
    · rename_i hempty
      rw [List.isEmpty_iff.1 hempty, List.append_nil]
    · rw [reverse_cons, flatten_append, flatten_singleton]
  · exact absurd h (by simp)

theorem takeBufferedLine_eq_inr {fragments : List Text} {line : Text}
    (h : takeBufferedLine fragments input = .inr (line, rest)) :
    line ++ rest = fragments.reverse.flatten ++ input ∧ line ≠ [] ∧ rest.length < input.length := by
  unfold takeBufferedLine at h
  split at h
  · exact absurd h (by simp)
  · rename_i c tail htail
    obtain ⟨rfl, rfl⟩ := Prod.mk.inj (Sum.inr.inj h)
    have hinput := eq_of_dropWhile_cons htail
    refine ⟨?_, by simp, ?_⟩
    · conv_rhs => rw [hinput]
      simp
    · have hlength := congrArg List.length hinput
      rw [length_append, length_cons] at hlength
      omega

/-! ### Settled states -/

/-- Only the buffer of the mode holds text. -/
def MarkdownStreamState.Settled (state : MarkdownStreamState) : Prop :=
  (state.streamMode = .prose ∨ state.pending = []) ∧
    (state.streamMode = .lineStart ∨ state.blockPending = [])

/-- The text that a state holds back. -/
def held (state : MarkdownStreamState) : Text := (flushMarkdownStreamCurrent state).source

/-- An outcome conserves the text `whole`, and leaves a settled state. -/
def Outcome.Conserves (whole : Text) : Outcome → Prop
  | .stop pieces state => state.Settled ∧ sources pieces ++ held state = whole
  | .next pieces state rest => state.Settled ∧ sources pieces ++ (held state ++ rest) = whole

/-- An outcome that goes on has less to read than `count`, or as much in a mode of lower rank. -/
def Outcome.Decreases (count rank : ℕ) : Outcome → Prop
  | .stop _ _ => True
  | .next _ state rest =>
    unread state rest < count ∨ unread state rest = count ∧ state.streamMode.rank < rank

variable {state : MarkdownStreamState}

theorem classifyCompleteLine_conserves {line : Text} (hpending : state.pending = []) :
    (classifyCompleteLine state line rest).Conserves (line ++ rest) := by
  unfold classifyCompleteLine
  split
  · exact ⟨⟨Or.inr hpending, Or.inr rfl⟩, by simp [held, flushMarkdownStreamCurrent,
      bufferedBlockText]⟩
  · split
    · exact ⟨⟨Or.inr hpending, Or.inr rfl⟩, by simp [held, flushMarkdownStreamCurrent]⟩
    · split
      · exact ⟨⟨Or.inr hpending, Or.inr rfl⟩, by simp [held, flushMarkdownStreamCurrent]⟩
      · exact ⟨⟨Or.inl rfl, Or.inr rfl⟩, by simp [held, flushMarkdownStreamCurrent, Piece.source,
          hpending]⟩

theorem feedLineStart_conserves (hmode : state.streamMode = .lineStart) (hsettled : state.Settled) :
    (feedLineStart state input).Conserves (held state ++ input) := by
  have hpending : state.pending = [] := hsettled.1.resolve_left (by rw [hmode]; simp)
  have hheld : held state = state.blockPending := by
    simp [held, flushMarkdownStreamCurrent, hmode]
  rw [hheld]
  unfold feedLineStart
  dsimp only
  split
  · rename_i line rest hline
    rw [(takeCompleteLine_eq_some hline).1]
    exact classifyCompleteLine_conserves hpending
  · split
    · refine ⟨⟨Or.inr hpending, Or.inl hmode⟩, ?_⟩
      simp [held, flushMarkdownStreamCurrent, hmode]
    · exact ⟨⟨Or.inl rfl, Or.inr rfl⟩, by simp [held, flushMarkdownStreamCurrent, Piece.source,
        hpending]⟩

theorem feedFence_conserves {marker : FenceMarker} {block : BufferedBlock}
    (hmode : state.streamMode = .fence marker block) (hsettled : state.Settled) :
    (feedFence marker block state input).Conserves (held state ++ input) := by
  have hpending : state.pending = [] := hsettled.1.resolve_left (by rw [hmode]; simp)
  have hblock : state.blockPending = [] := hsettled.2.resolve_left (by rw [hmode]; simp)
  have hheld : held state
      = block.completedLines.reverse.flatten ++ block.lineFragments.reverse.flatten := by
    simp [held, flushMarkdownStreamCurrent, hmode, bufferedBlockText]
  rw [hheld, append_assoc]
  unfold feedFence
  split
  · rename_i fragments hline
    refine ⟨⟨Or.inr hpending, Or.inr hblock⟩, ?_⟩
    rw [← takeBufferedLine_eq_inl hline]
    simp [held, flushMarkdownStreamCurrent, bufferedBlockText]
  · rename_i line rest hline
    rw [← (takeBufferedLine_eq_inr hline).1]
    split
    · refine ⟨⟨Or.inr rfl, Or.inr hblock⟩, ?_⟩
      simp [held, flushMarkdownStreamCurrent, hblock]
    · refine ⟨⟨Or.inr hpending, Or.inr hblock⟩, ?_⟩
      simp [held, flushMarkdownStreamCurrent, bufferedBlockText]

theorem feedTableCandidate_conserves {header : Text} {fragments : List Text}
    (hmode : state.streamMode = .tableCandidate header fragments) (hsettled : state.Settled) :
    (feedTableCandidate header fragments state input).Conserves (held state ++ input) := by
  have hpending : state.pending = [] := hsettled.1.resolve_left (by rw [hmode]; simp)
  have hblock : state.blockPending = [] := hsettled.2.resolve_left (by rw [hmode]; simp)
  have hheld : held state = header ++ fragments.reverse.flatten := by
    simp [held, flushMarkdownStreamCurrent, hmode]
  rw [hheld, append_assoc]
  unfold feedTableCandidate
  split
  · rename_i separator rest hline
    rw [← (takeBufferedLine_eq_inr hline).1]
    split
    · refine ⟨⟨Or.inr hpending, Or.inr hblock⟩, ?_⟩
      simp [held, flushMarkdownStreamCurrent, bufferedBlockText]
    · refine ⟨⟨Or.inr hpending, Or.inr hblock⟩, ?_⟩
      simp [held, flushMarkdownStreamCurrent, hblock]
  · rename_i remaining hline
    refine ⟨⟨Or.inr hpending, Or.inr hblock⟩, ?_⟩
    rw [← takeBufferedLine_eq_inl hline]
    simp [held, flushMarkdownStreamCurrent]

theorem feedTable_conserves {block : BufferedBlock} (hmode : state.streamMode = .table block)
    (hsettled : state.Settled) : (feedTable block state input).Conserves (held state ++ input) := by
  have hpending : state.pending = [] := hsettled.1.resolve_left (by rw [hmode]; simp)
  have hblock : state.blockPending = [] := hsettled.2.resolve_left (by rw [hmode]; simp)
  have hheld : held state
      = block.completedLines.reverse.flatten ++ block.lineFragments.reverse.flatten := by
    simp [held, flushMarkdownStreamCurrent, hmode, bufferedBlockText]
  rw [hheld, append_assoc]
  unfold feedTable
  split
  · rename_i fragments hline
    refine ⟨⟨Or.inr hpending, Or.inr hblock⟩, ?_⟩
    rw [← takeBufferedLine_eq_inl hline]
    simp [held, flushMarkdownStreamCurrent, bufferedBlockText]
  · rename_i line rest hline
    rw [← (takeBufferedLine_eq_inr hline).1]
    split
    · refine ⟨⟨Or.inr hpending, Or.inr hblock⟩, ?_⟩
      simp [held, flushMarkdownStreamCurrent, bufferedBlockText]
    · refine ⟨⟨Or.inr hpending, Or.inr hblock⟩, ?_⟩
      simp [held, flushMarkdownStreamCurrent, hblock]

theorem classifyCompleteLine_decreases {line : Text} (hline : line ≠ []) :
    (classifyCompleteLine state line rest).Decreases (line ++ rest).length 1 := by
  have hpos := length_pos_iff.2 hline
  have hless : ∀ mode : MarkdownStreamMode, mode.fragments = [] →
      unread { state with streamMode := mode, blockPending := [] } rest
        < (line ++ rest).length := by
    intro mode hmode
    simp only [unread, hmode, flatten_nil, length_nil, length_append]
    omega
  unfold classifyCompleteLine
  split
  · exact Or.inl (hless _ rfl)
  · split
    · exact Or.inl (hless _ rfl)
    · split
      · exact Or.inl (hless _ rfl)
      · exact Or.inr ⟨by simp [unread, MarkdownStreamMode.fragments], Nat.zero_lt_one⟩

theorem feedLineStart_decreases (state : MarkdownStreamState) (input : Text) :
    (feedLineStart state input).Decreases (state.blockPending ++ input).length 1 := by
  unfold feedLineStart
  dsimp only
  split
  · rename_i line rest hline
    obtain ⟨happend, hne⟩ := takeCompleteLine_eq_some hline
    rw [happend]
    exact classifyCompleteLine_decreases hne
  · split
    · trivial
    · exact Or.inr ⟨by simp [unread, MarkdownStreamMode.fragments], Nat.zero_lt_one⟩

section Run

variable (isAlphaNum : Char → Bool) (tables : WidthTables)

variable {state : MarkdownStreamState}

theorem feedProse_conserves {input : Text} (hmode : state.streamMode = .prose)
    (hsettled : state.Settled) :
    (feedProse isAlphaNum tables state input).Conserves (held state ++ input) := by
  have hblock : state.blockPending = [] := hsettled.2.resolve_left (by rw [hmode]; simp)
  have hheld : held state = state.pending := by
    simp [held, flushMarkdownStreamCurrent, hmode, Piece.source]
  rw [hheld]
  unfold feedProse
  dsimp only
  split
  · rename_i hend
    have hinput : input.takeWhile (· ≠ '\n') = input := by
      have happend := takeWhile_append_dropWhile (p := (· ≠ '\n')) (l := input)
      rwa [hend, List.append_nil] at happend
    rw [hinput]
    set parsed := splitMarkdownFragment isAlphaNum state.context (state.pending ++ input)
    have hparsed : parsed.markdownReady ++ parsed.markdownPending = state.pending ++ input :=
      splitMarkdownFragment_append isAlphaNum _ _
    have hstable := splitTerminalGraphemeSuffix_append tables parsed.markdownReady
    rcases hsplit : splitTerminalGraphemeSuffix tables parsed.markdownReady
      with ⟨stable, graphemePending⟩
    rw [hsplit] at hstable
    dsimp only at hstable ⊢
    refine ⟨⟨Or.inl rfl, Or.inr hblock⟩, ?_⟩
    rw [sources_singleton, held, flushMarkdownStreamCurrent]
    dsimp only [Piece.source]
    split
    · rename_i hempty
      rw [List.isEmpty_iff.1 hempty, nil_append, nil_append, hparsed]
    · rw [← hparsed, ← hstable, append_assoc, ← append_assoc,
        splitMarkdownFragment_append, append_assoc]
  · rename_i c rest hrest
    refine ⟨⟨Or.inr rfl, Or.inl rfl⟩, ?_⟩
    rw [sources_singleton, held, flushMarkdownStreamCurrent]
    dsimp only [Piece.source, renderBuffered]
    rw [splitMarkdownFragment_append, nil_append, append_assoc, append_assoc,
      singleton_append, ← eq_of_dropWhile_cons hrest]

/-- **A step conserves every character.** -/
theorem stepMarkdownStream_conserves (input : Text) (hsettled : state.Settled) :
    (stepMarkdownStream isAlphaNum tables state input).Conserves (held state ++ input) := by
  unfold stepMarkdownStream
  split
  · rename_i hmode
    exact feedLineStart_conserves hmode hsettled
  · rename_i hmode
    exact feedProse_conserves isAlphaNum tables hmode hsettled
  · rename_i hmode
    exact feedFence_conserves hmode hsettled
  · rename_i hmode
    exact feedTableCandidate_conserves hmode hsettled
  · rename_i hmode
    exact feedTable_conserves hmode hsettled

/-- Every step that goes on makes progress, in any state. -/
theorem stepMarkdownStream_decreases (state : MarkdownStreamState) (input : Text) :
    (stepMarkdownStream isAlphaNum tables state input).Decreases (unread state input)
      state.streamMode.rank := by
  unfold stepMarkdownStream
  split
  · rename_i hmode
    have hcount : unread state input = (state.blockPending ++ input).length := by
      simp [unread, hmode, MarkdownStreamMode.fragments]
    rw [hcount, hmode]
    exact feedLineStart_decreases state input
  · rename_i hmode
    unfold feedProse
    dsimp only
    split
    · trivial
    · rename_i c rest hrest
      have hlength := congrArg List.length (eq_of_dropWhile_cons hrest)
      rw [length_append, length_cons] at hlength
      refine Or.inl ?_
      simp only [unread, MarkdownStreamMode.fragments, length_nil, flatten_nil]
      omega
  · rename_i marker block hmode
    rw [unread, hmode]
    unfold feedFence
    split
    · trivial
    · rename_i line rest hline
      have hlength := (takeBufferedLine_eq_inr hline).2.2
      split
      · refine Or.inl ?_
        simp only [unread, MarkdownStreamMode.fragments, length_nil, flatten_nil]
        omega
      · refine Or.inl ?_
        simp only [unread, MarkdownStreamMode.fragments, length_nil, flatten_nil]
        omega
  · rename_i header fragments hmode
    rw [unread, hmode]
    unfold feedTableCandidate
    split
    · rename_i separator rest hline
      obtain ⟨happend, _, hlength⟩ := takeBufferedLine_eq_inr hline
      split
      · refine Or.inl ?_
        simp only [unread, MarkdownStreamMode.fragments, length_nil, flatten_nil]
        omega
      · refine Or.inr ⟨?_, Nat.one_lt_two⟩
        simp only [unread, MarkdownStreamMode.fragments, happend]
        simp [length_flatten, Nat.add_assoc]
    · trivial
  · rename_i block hmode
    rw [unread, hmode]
    unfold feedTable
    split
    · trivial
    · rename_i line rest hline
      obtain ⟨happend, _, hlength⟩ := takeBufferedLine_eq_inr hline
      split
      · refine Or.inl ?_
        simp only [unread, MarkdownStreamMode.fragments, length_nil, flatten_nil]
        omega
      · refine Or.inr ⟨?_, Nat.one_lt_two⟩
        simp only [unread, MarkdownStreamMode.fragments, happend]
        simp [length_flatten, Nat.add_assoc]

/-- A call of `feedMarkdownStreamCurrent`: the state that it leaves and its pieces. -/
def feedMarkdownStreamCurrent (state : MarkdownStreamState) (input : Text) :
    MarkdownStreamState × List Piece :=
  match _hstep : stepMarkdownStream isAlphaNum tables state input with
  | .stop pieces nextState => (nextState, pieces)
  | .next pieces nextState rest =>
    let (lastState, following) := feedMarkdownStreamCurrent nextState rest
    (lastState, pieces ++ following)
termination_by (unread state input, state.streamMode.rank)
decreasing_by
  have h := stepMarkdownStream_decreases isAlphaNum tables state input
  rw [_hstep] at h
  obtain hless | ⟨hsame, hrank⟩ := h
  · exact Prod.Lex.left _ _ hless
  · rw [hsame]
    exact Prod.Lex.right _ hrank

/-- `feedMarkdownStream` and `feedMarkdownStreamAtWidth`. -/
def feedMarkdownStream (width : Option ℤ) (state : MarkdownStreamState) (input : Text) :
    MarkdownStreamState × List Piece :=
  feedMarkdownStreamCurrent isAlphaNum tables { state with renderWidth := width.map (max 1) } input

/-- Chunks that are fed one after the other, each at its width. -/
def feedChunks (state : MarkdownStreamState) :
    List (Option ℤ × Text) → MarkdownStreamState × List Piece
  | [] => (state, [])
  | (width, chunk) :: chunks =>
    let (nextState, pieces) := feedMarkdownStream isAlphaNum tables width state chunk
    let (lastState, following) := feedChunks nextState chunks
    (lastState, pieces ++ following)

/-- `flushMarkdownStream` keeps the width of the state; `flushMarkdownStreamAtWidth` sets it. -/
def flushMarkdownStream (width : Option ℤ) (state : MarkdownStreamState) : Piece :=
  match width with
  | none => flushMarkdownStreamCurrent state
  | some width => flushMarkdownStreamCurrent { state with renderWidth := some (max 1 width) }

/-! ### All the pieces -/

theorem feedMarkdownStreamCurrent_conserves (input : Text) (hsettled : state.Settled) :
    (feedMarkdownStreamCurrent isAlphaNum tables state input).1.Settled ∧
      sources (feedMarkdownStreamCurrent isAlphaNum tables state input).2
          ++ held (feedMarkdownStreamCurrent isAlphaNum tables state input).1
        = held state ++ input := by
  fun_induction feedMarkdownStreamCurrent isAlphaNum tables state input with
  | case1 state input pieces nextState hstep =>
    have h := stepMarkdownStream_conserves isAlphaNum tables input hsettled
    rw [hstep] at h
    exact h
  | case2 state input pieces nextState rest hstep lastState following hrest ih =>
    have h := stepMarkdownStream_conserves isAlphaNum tables input hsettled
    rw [hstep] at h
    obtain ⟨hlast, hsources⟩ := ih h.1
    rw [hrest] at hlast hsources
    exact ⟨hlast, by rw [sources_append, append_assoc, hsources, h.2]⟩

theorem held_renderWidth (state : MarkdownStreamState) (width : Option ℤ) :
    held { state with renderWidth := width } = held state := by
  unfold held flushMarkdownStreamCurrent
  cases state.streamMode <;> rfl

theorem feedMarkdownStream_conserves (width : Option ℤ) (input : Text) (hsettled : state.Settled) :
    (feedMarkdownStream isAlphaNum tables width state input).1.Settled ∧
      sources (feedMarkdownStream isAlphaNum tables width state input).2
          ++ held (feedMarkdownStream isAlphaNum tables width state input).1
        = held state ++ input := by
  have hwidened : { state with renderWidth := width.map (max 1) }.Settled := hsettled
  have h := feedMarkdownStreamCurrent_conserves isAlphaNum tables input hwidened
  exact ⟨h.1, h.2.trans (congrArg (· ++ input) (held_renderWidth state _))⟩

theorem feedChunks_conserves (chunks : List (Option ℤ × Text)) (hsettled : state.Settled) :
    sources (feedChunks isAlphaNum tables state chunks).2
        ++ held (feedChunks isAlphaNum tables state chunks).1
      = held state ++ chunks.flatMap Prod.snd := by
  induction chunks generalizing state with
  | nil => simp [feedChunks]
  | cons chunk chunks ih =>
    obtain ⟨width, chunk⟩ := chunk
    obtain ⟨hnext, hsources⟩ := feedMarkdownStream_conserves isAlphaNum tables width
      chunk hsettled
    rw [feedChunks, flatMap_cons, ← append_assoc, ← hsources, sources_append,
      append_assoc, append_assoc, ih hnext]

/-- **The pieces are the input**: whatever the chunks and the widths are, the sources of the pieces
and of what is left at the end are the text that was fed. -/
theorem markdownStream_conserves (chunks : List (Option ℤ × Text)) (flushWidth : Option ℤ) :
    sources ((feedChunks isAlphaNum tables emptyMarkdownStreamState chunks).2
        ++ [flushMarkdownStream flushWidth
          (feedChunks isAlphaNum tables emptyMarkdownStreamState chunks).1])
      = chunks.flatMap Prod.snd := by
  have hempty : emptyMarkdownStreamState.Settled := ⟨Or.inr rfl, Or.inl rfl⟩
  have h := feedChunks_conserves isAlphaNum tables chunks hempty
  have hflush : ∀ state : MarkdownStreamState,
      (flushMarkdownStream flushWidth state).source = held state := by
    intro state
    cases flushWidth with
    | none => rfl
    | some width => exact held_renderWidth state _
  rw [sources_append, sources_singleton, hflush, h]
  rfl

end Run

end Markdown
end HaskellAgent
