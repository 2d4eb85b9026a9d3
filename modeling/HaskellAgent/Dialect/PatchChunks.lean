import HaskellAgent.Loop.Input
import Mathlib.Data.List.TakeWhile

/-!
# Update chunks of a patch

An update hunk of a patch rewrites a file chunk by chunk.  The file is cut into lines that keep
their terminators, so that matching does not depend on line endings; each chunk replaces a window of
lines whose texts are its old lines by its new lines, and the lines are put together again.

## Main definitions

* `SourceLine`, `splitFileLines`, `joinFileLines` — a file as lines with their terminators.
* `UpdateChunk`, `applyChunk`, `applyChunks` — the chunks of an update.
* `updatedContents` — the new contents of an updated file.
-/

namespace HaskellAgent

/-- Indices count lines from zero: a line of `chunkNew` and the context line of `chunkOld` it
repeats. -/
structure UpdateChunk where
  chunkContext : Option Text
  chunkOld : List Text
  chunkNew : List Text
  chunkContextIndices : List (ℕ × ℕ)
  chunkEof : Bool

structure SourceLine where
  sourceText : Text
  sourceEnding : Text
  deriving DecidableEq

def isLineBreak (c : Char) : Bool := c == '\r' || c == '\n'

/-- Cut a file at LF, CRLF and CR. -/
def splitFileLines (contents : Text) : List SourceLine :=
  if contents.isEmpty then []
  else
    let body := contents.takeWhile fun c => !isLineBreak c
    match _hsuffix : contents.dropWhile fun c => !isLineBreak c with
    | [] => [⟨body, []⟩]
    | ending :: rest =>
        -- CRLF is one terminator
        if ending = '\r' ∧ rest.head? = some '\n' then
          ⟨body, ['\r', '\n']⟩ :: splitFileLines rest.tail
        else ⟨body, [ending]⟩ :: splitFileLines rest
termination_by contents.length
decreasing_by
  all_goals
    have hle := (List.dropWhile_suffix (fun c => !isLineBreak c) (l := contents)).length_le
    rw [_hsuffix, List.length_cons] at hle
    try rw [List.length_tail]
    omega

/-- The first position of the needle from this one on. -/
def findSequenceFrom (needle haystack : List Text) (i : ℕ) : Option ℕ :=
  if haystack.length < i + needle.length then none
  else if (haystack.drop i).take needle.length = needle then some i
  else findSequenceFrom needle haystack (i + 1)
termination_by haystack.length + 1 - i

/-- Find the needle at or after a position. -/
def findSequence (needle haystack : List Text) (start : ℕ) : Option ℕ :=
  if needle.isEmpty then some start else findSequenceFrom needle haystack start

def replaceAt {α : Type} (idx count : ℕ) (newLines fileLines : List α) : List α :=
  fileLines.take idx ++ newLines ++ fileLines.drop (idx + count)

def insertAtPos {α : Type} (idx : ℕ) (newLines fileLines : List α) : List α :=
  fileLines.take idx ++ newLines ++ fileLines.drop idx

/-- The new lines of a chunk, its context lines kept as they stand in the file at `idx`. -/
def retainedLines (chunk : UpdateChunk) (newLines fileLines : List SourceLine) (idx : ℕ) :
    List SourceLine :=
  newLines.mapIdx fun newIndex line =>
    -- of several entries for an index, the last one counts
    match chunk.chunkContextIndices.reverse.lookup newIndex with
    | some oldIndex => fileLines[idx + oldIndex]?.getD line
    | none => line

def applyChunk (preferredEnding : Text) (chunk : UpdateChunk) (fileLines : List SourceLine) :
    Except Text (List SourceLine) :=
  let lineTexts := fileLines.map SourceLine.sourceText
  let afterContext := match chunk.chunkContext with
    | none => 0
    | some ctx => (lineTexts.idxOf? ctx).getD fileLines.length
  let searchFrom := match chunk.chunkContext with
    | none => 0
    | some _ => afterContext + 1
  let newLines : List SourceLine := chunk.chunkNew.map fun body => ⟨body, preferredEnding⟩
  let replace := fun idx => replaceAt idx chunk.chunkOld.length
    (retainedLines chunk newLines fileLines idx) fileLines
  -- a chunk without old lines only inserts
  if chunk.chunkOld.isEmpty then
    let insertAt := if chunk.chunkEof || chunk.chunkContext.isNone then fileLines.length
      else searchFrom
    .ok (insertAtPos insertAt newLines fileLines)
  else
    match findSequence chunk.chunkOld lineTexts searchFrom with
    | none =>
        -- the context did not pin a site: search from the start
        match findSequence chunk.chunkOld lineTexts 0 with
        | none => .error "Failed to find expected lines in the file to update".toList
        | some idx => .ok (replace idx)
    | some idx => .ok (replace idx)

def applyChunks (preferredEnding : Text) (chunks : List UpdateChunk) (start : List SourceLine) :
    Except Text (List SourceLine) :=
  chunks.foldlM (fun fileLines chunk => applyChunk preferredEnding chunk fileLines) start

/-- Lines in the file's own form: the last one is terminated if the file was. -/
def renderLines (preferredEnding : Text) (terminated : Bool) : List SourceLine → Text
  | [] => []
  | [line] =>
      -- the last line
      line.sourceText ++ if terminated then
        (if line.sourceEnding.isEmpty then preferredEnding else line.sourceEnding) else []
  | line :: rest =>
      line.sourceText ++ (if line.sourceEnding.isEmpty then preferredEnding else line.sourceEnding)
        ++ renderLines preferredEnding terminated rest

def joinFileLines (preferredEnding : Text) (newLines : List SourceLine) (original : Text) : Text :=
  renderLines preferredEnding
    (original.isEmpty || original.getLast? == some '\n' || original.getLast? == some '\r') newLines

/-- The terminator of the first line, LF for a file without one. -/
def preferredEnding (sourceLines : List SourceLine) : Text :=
  match sourceLines with
  | line :: _ => if line.sourceEnding.isEmpty then ['\n'] else line.sourceEnding
  | [] => ['\n']

/-- The contents of a file after an update. -/
def updatedContents (chunks : List UpdateChunk) (original : Text) : Except Text Text :=
  let sourceLines := splitFileLines original
  let ending := preferredEnding sourceLines
  (applyChunks ending chunks sourceLines).map fun newLines => joinFileLines ending newLines original

end HaskellAgent
