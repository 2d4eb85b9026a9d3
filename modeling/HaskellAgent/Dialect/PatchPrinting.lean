import HaskellAgent.Dialect.PatchWindows
import Mathlib.Data.List.Chain

/-!
# A patch is read as it was written

The grammar of the tool says how a patch is spelled: its hunks one after the other, the chunks of an
update hunk with a header, change lines and an end-of-file marker.  What is spelled so is read back,
a header without the blanks around it.

The reader looks for some markers in lines without their leading blanks, so that a context line at
the beginning of a chunk without a header may be taken for one; such lines are left out here.
-/

open List
open Option hiding or_assoc

namespace HaskellAgent

namespace Patch

/-! ### Spelling -/

/-- A chunk: a header, which may be bare, its change lines, and whether an end-of-file marker
follows. -/
structure ChunkText where
  header : Option (Option Text)
  body : List ChangeLine
  eof : Bool

inductive HunkText
  | add (path : Text) (content : List Text)
  | delete (path : Text)
  | update (path : Text) (moveTo : Option Text) (chunks : List ChunkText)

def headerLine : Option Text → Text
  | none => bareHeader
  | some ctx => headerMarker ++ ctx

def ChunkText.print (c : ChunkText) : List Text :=
  (c.header.map headerLine).toList ++
    (c.body.map ChangeLine.print ++ if c.eof then [endOfFile] else [])

def HunkText.print : HunkText → List Text
  | .add path content => (addFileMarker ++ path) :: content.map ('+' :: ·)
  | .delete path => [deleteFileMarker ++ path]
  | .update path moveTo chunks =>
      (updateFileMarker ++ path) ::
        ((moveTo.map (moveToMarker ++ ·)).toList ++ chunks.flatMap ChunkText.print)

/-- The last line feed may be missing. -/
def printPatch (hunks : List HunkText) (finalBreak : Bool) : Text :=
  unlinesText (beginPatch :: hunks.flatMap HunkText.print) ++
    (endPatch ++ if finalBreak then ['\n'] else [])

/-- The context lines, in the new lines and in the old ones. -/
def contextPairs (oldIndex newIndex : ℕ) : List ChangeLine → List (ℕ × ℕ)
  | [] => []
  | ⟨.context, _⟩ :: rest =>
      (newIndex, oldIndex) :: contextPairs (oldIndex + 1) (newIndex + 1) rest
  | ⟨.removed, _⟩ :: rest => contextPairs (oldIndex + 1) newIndex rest
  | ⟨.added, _⟩ :: rest => contextPairs oldIndex (newIndex + 1) rest

def ChunkText.chunk (c : ChunkText) : UpdateChunk where
  chunkContext := c.header.join
  chunkOld := oldTexts c.body
  chunkNew := newTexts c.body
  chunkContextIndices := contextPairs 0 0 c.body
  chunkEof := c.eof

def HunkText.hunk : HunkText → Hunk
  | .add path content => .addFile path (unlinesText content)
  | .delete path => .deleteFile path
  | .update path moveTo chunks => .updateFile path moveTo (chunks.map ChunkText.chunk)

/-- The chunk with a header without blanks around it. -/
def ChunkText.stripped (c : ChunkText) : ChunkText :=
  { c with header := c.header.map fun header => header.map strip }

def HunkText.stripped : HunkText → HunkText
  | .update path moveTo chunks => .update path moveTo (chunks.map ChunkText.stripped)
  | hunk => hunk

/-! ### Well-formed patches -/

def LineText (text : Text) : Prop := '\n' ∉ text ∧ text.getLast? ≠ some '\r'

def PathText (path : Text) : Prop :=
  path ≠ [] ∧ List.Trimmed isSpace path ∧ '\n' ∉ path ∧ '\r' ∉ path

structure ChunkText.WellFormed (c : ChunkText) : Prop where
  header : ∀ ctx, c.header = some (some ctx) → ctx ≠ [] ∧ LineText ctx
  body : ∀ line ∈ c.body, LineText line.text
  some : c.header.isSome = true ∨ c.body ≠ [] ∨ c.eof = true

def HunkText.WellFormed : HunkText → Prop
  | .add path content => PathText path ∧ content ≠ [] ∧ ∀ line ∈ content, LineText line
  | .delete path => PathText path
  | .update path moveTo chunks =>
      PathText path ∧ (∀ dest, moveTo = some dest → PathText dest) ∧ chunks ≠ [] ∧
        (∀ c ∈ chunks, c.WellFormed) ∧
        chunks.IsChain fun c next => c.eof = true ∨ next.header.isSome = true

/-- A context line at the beginning of the chunk that is not behind a header. -/
def ChunkText.exposed (c : ChunkText) : Option Text :=
  match c.header, c.body with
  | none, ⟨.context, text⟩ :: _ => some text
  | _, _ => none

/-- Something is behind a bare header, and the exposed line is not taken for an end or a header. -/
structure ChunkText.Plain (c : ChunkText) : Prop where
  bare : c.header = some none → c.body ≠ [] ∨ c.eof = true
  notEnd : ∀ text, c.exposed = some text → strip text ≠ endPatch
  notHeader : ∀ text, c.exposed = some text → stripPrefix headerMarker text = none

/-- In a hunk without a move target, the exposed line of the first chunk is not taken for one. -/
def HunkText.Plain : HunkText → Prop
  | .update _ moveTo chunks =>
      (∀ c ∈ chunks, c.Plain) ∧
        (moveTo = none → ∀ c ∈ chunks.head?, ∀ text, c.exposed = some text →
          stripPrefix moveToMarker text = none)
  | _ => True

/-! ### Blanks -/

variable {more : List Text} {marker : Text} {chunks : List ChunkText} {hunks : List HunkText}
  {line : Text} {c : Char}

theorem stripStart_cons_of_not (h : isSpace c = false) (text : Text) :
    stripStart (c :: text) = c :: text :=
  dropWhile_cons_of_neg (by simp [h])

theorem stripPrefix_blank (marker text : Text) :
    stripPrefix marker (' ' :: text) = stripPrefix marker text := by
  rw [stripPrefix, stripPrefix, stripStart, dropWhile_cons_of_pos (by rfl), ← stripStart]

theorem strip_blank (text : Text) : strip (' ' :: text) = strip text := by
  rw [strip, strip, List.trim, dropWhile_cons_of_pos (by rfl), ← List.trim]

variable {marker : Text}

theorem stripPrefix_append (h : isSpace c = false) (hmarker : marker.head? = some c)
    (text : Text) : stripPrefix marker (marker ++ text) = some text := by
  obtain ⟨rest, rfl⟩ := List.head?_eq_some_iff.mp hmarker
  rw [stripPrefix, cons_append, stripStart_cons_of_not h, ← cons_append]
  exact List.isPrefixOf?_eq_some_iff_append_eq.mpr rfl

/-- A line with another first character does not begin with the marker. -/
theorem isPrefixOf_cons_of_ne {c d : Char} (hne : d ≠ c)
    (hmarker : marker.head? = some c) (text : Text) : marker.isPrefixOf (d :: text) = false := by
  obtain ⟨rest, rfl⟩ := List.head?_eq_some_iff.mp hmarker
  rw [List.isPrefixOf, beq_false_of_ne (Ne.symm hne), Bool.false_and]

theorem stripPrefix_cons_of_ne {c d : Char} (h : isSpace d = false) (hne : d ≠ c)
    (hmarker : marker.head? = some c) (text : Text) : stripPrefix marker (d :: text) = none := by
  obtain ⟨rest, rfl⟩ := List.head?_eq_some_iff.mp hmarker
  rw [stripPrefix, stripStart_cons_of_not h, List.isPrefixOf?, if_neg (by simpa using Ne.symm hne)]

theorem head?_strip_cons (h : isSpace c = false) (text : Text) :
    (strip (c :: text)).head? = some c := by
  rw [strip, List.trim, dropWhile_cons_of_neg (by simp [h])]
  cases hstrip : (c :: text).rdropWhile isSpace with
  | nil =>
    have hall := rdropWhile_eq_nil_iff.mp hstrip c mem_cons_self
    rw [h] at hall
    cases hall
  | cons d rest =>
    have hd := rdropWhile_prefix isSpace (c :: text)
    rw [hstrip, cons_prefix_cons] at hd
    rw [hd.1]
    rfl

theorem strip_cons_ne {c d : Char} (h : isSpace d = false) (hne : d ≠ c)
    (hmarker : marker.head? = some c) (text : Text) : strip (d :: text) ≠ marker := by
  intro heq
  have hhead := head?_strip_cons h text
  rw [heq, hmarker] at hhead
  exact hne (some.inj hhead).symm

theorem head?_endPatch : endPatch.head? = some '*' := by decide

theorem head?_endOfFile : endOfFile.head? = some '*' := by decide

theorem head?_addFileMarker : addFileMarker.head? = some '*' := by decide

theorem head?_deleteFileMarker : deleteFileMarker.head? = some '*' := by decide

theorem head?_updateFileMarker : updateFileMarker.head? = some '*' := by decide

theorem head?_moveToMarker : moveToMarker.head? = some '*' := by decide

theorem head?_headerMarker : headerMarker.head? = some '@' := by decide

variable {path : Text}

theorem PathText.strip_eq (h : PathText path) : strip path = path := h.2.1.trim_eq

/-- A marker with a path behind it has no blanks around it. -/
theorem PathText.strip_append (h : PathText path)
    (hc : isSpace c = false) (hmarker : marker.head? = some c) :
    strip (marker ++ path) = marker ++ path := by
  obtain ⟨rest, rfl⟩ := List.head?_eq_some_iff.mp hmarker
  refine List.Trimmed.trim_eq ⟨fun a ha => ?_, fun a ha => h.2.1.2 a ?_⟩
  · rw [← some.inj ha]
    exact hc
  · rwa [List.getLast?_append_of_ne_nil _ h.1] at ha

theorem PathText.lineText_append (h : PathText path) (hmarker : '\n' ∉ marker) :
    LineText (marker ++ path) := by
  refine ⟨fun hmem => ?_, fun hlast => ?_⟩
  · rcases mem_append.mp hmem with hmem | hmem
    · exact hmarker hmem
    · exact h.2.2.1 hmem
  · rw [List.getLast?_append_of_ne_nil _ h.1] at hlast
    exact h.2.2.2 (List.mem_of_getLast? hlast)

theorem LineText.cons {text : Text} (h : LineText text) (hfeed : c ≠ '\n')
    (hcarriage : c ≠ '\r') : LineText (c :: text) := by
  refine ⟨fun hmem => ?_, fun hlast => ?_⟩
  · rcases mem_cons.mp hmem with heq | hmem
    · exact hfeed heq.symm
    · exact h.1 hmem
  · cases text with
    | nil => exact hcarriage (some.inj hlast)
    | cons first rest =>
      rw [List.getLast?_cons_cons] at hlast
      exact h.2 hlast

theorem dropCarriage_eq (h : LineText line) : dropCarriage line = line := if_neg h.2

/-! ### Chunks -/

/-- What comes behind a chunk is not taken for a part of it. -/
def Stops (more : List Text) : Prop :=
  ∀ line ∈ more.head?, isChangeLine line = false ∧ strip line ≠ endOfFile

theorem isChangeLine_print (line : ChangeLine) : isChangeLine line.print = true := by
  rcases line with ⟨mark, text⟩
  cases mark <;> rfl

theorem contextIndices_print (oldIndex newIndex : ℕ) (body : List ChangeLine) :
    contextIndices oldIndex newIndex (body.map ChangeLine.print) =
      contextPairs oldIndex newIndex body := by
  induction body generalizing oldIndex newIndex with
  | nil => rfl
  | cons line body ih =>
    rcases line with ⟨mark, text⟩
    cases mark with
    | context => exact congrArg ((newIndex, oldIndex) :: ·) (ih _ _)
    | removed | added => exact ih _ _

theorem buildChunk_print (c : ChunkText) :
    buildChunk c.stripped.header.join (c.body.map ChangeLine.print) c.eof = c.stripped.chunk := by
  have hold := chunkOld_buildChunk c.stripped.header.join c.body c.eof
  have hnew := chunkNew_buildChunk c.stripped.header.join c.body c.eof
  rw [ChunkText.chunk, buildChunk, UpdateChunk.mk.injEq]
  exact ⟨rfl, hold, hnew, contextIndices_print 0 0 c.body, rfl⟩

theorem nextHunk_cons_of_ne {d : Char} (h : isSpace d = false) (hne : d ≠ '*') (text : Text)
    (rest : List Text) : nextHunk ((d :: text) :: rest) = false := by
  rw [nextHunk, isPrefixOf_cons_of_ne hne head?_addFileMarker,
    isPrefixOf_cons_of_ne hne head?_deleteFileMarker,
    isPrefixOf_cons_of_ne hne head?_updateFileMarker,
    beq_false_of_ne (strip_cons_ne h hne head?_endPatch text)]
  rfl

theorem nextHunk_print {line : ChangeLine} (h : line.mark = .context → strip line.text ≠ endPatch)
    (rest : List Text) : nextHunk (line.print :: rest) = false := by
  rcases line with ⟨mark, text⟩
  cases mark with
  | removed => exact nextHunk_cons_of_ne (d := '-') rfl (by decide) text rest
  | added => exact nextHunk_cons_of_ne (d := '+') rfl (by decide) text rest
  | context =>
    rw [nextHunk, ChangeLine.print, Mark.char, isPrefixOf_cons_of_ne (by decide) head?_addFileMarker,
      isPrefixOf_cons_of_ne (by decide) head?_deleteFileMarker,
      isPrefixOf_cons_of_ne (by decide) head?_updateFileMarker, strip_blank,
      beq_false_of_ne (h rfl)]
    rfl

/-- A change line is a marker only if it is a context line and its text is one. -/
theorem stripPrefix_print {line : ChangeLine} (hmarker : marker.head? = some c)
    (hc : c = '*' ∨ c = '@') (h : line.mark = .context → stripPrefix marker line.text = none) :
    stripPrefix marker line.print = none := by
  have hremoved : '-' ≠ c := by rcases hc with rfl | rfl <;> decide
  have hadded : '+' ≠ c := by rcases hc with rfl | rfl <;> decide
  rcases line with ⟨mark, text⟩
  cases mark with
  | removed => exact stripPrefix_cons_of_ne rfl hremoved hmarker text
  | added => exact stripPrefix_cons_of_ne rfl hadded hmarker text
  | context => exact (stripPrefix_blank marker text).trans (h rfl)

theorem takeHeader_print {line : ChangeLine}
    (h : line.mark = .context → stripPrefix headerMarker line.text = none) (rest : List Text) :
    takeHeader (line.print :: rest) = (none, line.print :: rest) := by
  have hbare : line.print ≠ bareHeader := by
    intro heq
    have hmark : line.mark.char = '@' := some.inj (congrArg List.head? heq)
    revert hmark
    cases line.mark <;> decide
  rw [takeHeader, if_neg hbare, stripPrefix_print head?_headerMarker (Or.inr rfl) h]

theorem takeHeader_headerLine (header : Option Text) (rest : List Text) :
    takeHeader (headerLine header :: rest) = (header.map strip, rest) := by
  cases header with
  | none => rw [takeHeader, headerLine, if_pos rfl, map_none]
  | some ctx =>
    have hbare : headerMarker ++ ctx ≠ bareHeader := by
      intro heq
      have hlength := congrArg List.length heq
      rw [length_append] at hlength
      have hthree : headerMarker.length = 3 := by decide
      have htwo : bareHeader.length = 2 := by decide
      omega
    rw [takeHeader, headerLine, if_neg hbare, stripPrefix_append (by decide) head?_headerMarker]
    rfl

theorem headerLine_cons (header : Option Text) : ∃ rest, headerLine header = '@' :: rest := by
  cases header with
  | none => exact ⟨['@'], rfl⟩
  | some ctx => exact ⟨'@' :: ' ' :: ctx, rfl⟩

/-- The lines of a chunk behind its header, and the lines behind it. -/
def ChunkText.afterHeader (c : ChunkText) (more : List Text) : List Text :=
  c.body.map ChangeLine.print ++ ((if c.eof then [endOfFile] else []) ++ more)

theorem ChunkText.print_append (c : ChunkText) (more : List Text) :
    c.print ++ more = (c.header.map headerLine).toList ++ c.afterHeader more := by
  simp only [ChunkText.print, afterHeader, append_assoc]

variable {c : ChunkText}

theorem nextHunk_chunk (hwf : c.WellFormed) (hplain : c.Plain) (more : List Text) :
    nextHunk (c.print ++ more) = false := by
  rw [c.print_append]
  rcases c with ⟨header, body, eof⟩
  cases header with
  | some header =>
    obtain ⟨text, htext⟩ := headerLine_cons header
    rw [map_some, toList_some, htext]
    exact nextHunk_cons_of_ne (d := '@') rfl (by decide) _ _
  | none =>
    cases body with
    | cons line body =>
      refine nextHunk_print (fun hmark => hplain.notEnd line.text ?_) _
      rcases line with ⟨mark, text⟩
      obtain rfl : mark = .context := hmark
      rfl
    | nil =>
      obtain rfl : eof = true := by simpa using hwf.some
      rfl

theorem takeHeader_chunk (hwf : c.WellFormed) (hplain : c.Plain) (more : List Text) :
    takeHeader (c.print ++ more) = (c.stripped.header.join, c.afterHeader more) := by
  rw [c.print_append]
  rcases c with ⟨header, body, eof⟩
  cases header with
  | some header => exact takeHeader_headerLine header _
  | none =>
    cases body with
    | cons line body =>
      refine takeHeader_print (fun hmark => hplain.notHeader line.text ?_) _
      rcases line with ⟨mark, text⟩
      obtain rfl : mark = .context := hmark
      rfl
    | nil =>
      obtain rfl : eof = true := by simpa using hwf.some
      rfl

/-- Behind the change lines of a chunk there is none. -/
theorem isChangeLine_of_stops (hmore : c.eof = false → Stops more) :
    ∀ line ∈ ((if c.eof then [endOfFile] else []) ++ more).head?, isChangeLine line = false := by
  cases heof : c.eof with
  | true =>
    intro line hline
    obtain rfl : endOfFile = line := some.inj hline
    rfl
  | false => exact fun line hline => (hmore heof line hline).1

theorem takeWhile_of_head {p : Text → Bool} {ls : List Text} (h : ∀ line ∈ ls.head?, p line = false) :
    ls.takeWhile p = [] ∧ ls.dropWhile p = ls := by
  cases ls with
  | nil => exact ⟨rfl, rfl⟩
  | cons line rest =>
    have hline := h line rfl
    exact ⟨takeWhile_cons_of_neg (by simp [hline]), dropWhile_cons_of_neg (by simp [hline])⟩

theorem takeWhile_afterHeader (hmore : c.eof = false → Stops more) :
    (c.afterHeader more).takeWhile isChangeLine = c.body.map ChangeLine.print ∧
      (c.afterHeader more).dropWhile isChangeLine =
        (if c.eof then [endOfFile] else []) ++ more := by
  have hbody : ∀ line ∈ c.body.map ChangeLine.print, isChangeLine line = true := by
    intro line hline
    obtain ⟨change, -, rfl⟩ := List.mem_map.mp hline
    exact isChangeLine_print change
  have hrest := takeWhile_of_head (isChangeLine_of_stops hmore)
  rw [ChunkText.afterHeader, takeWhile_append_of_pos hbody, dropWhile_append_of_pos hbody,
    hrest.1, hrest.2, List.append_nil]
  exact ⟨rfl, rfl⟩

theorem takeEof_chunk (hmore : c.eof = false → Stops more) :
    takeEof ((if c.eof then [endOfFile] else []) ++ more) = (c.eof, more) := by
  cases heof : c.eof with
  | true =>
    have hstrip : strip endOfFile = endOfFile := by decide
    rw [if_pos rfl, singleton_append, takeEof, if_pos hstrip]
  | false =>
    cases more with
    | nil => rfl
    | cons line rest => exact if_neg (hmore heof line rfl).2

/-- **A chunk is read as it was written**, and then the others. -/
theorem parseChunks_print_cons (hwf : c.WellFormed) (hplain : c.Plain)
    (hmore : c.eof = false → Stops more) (fuel : ℕ) :
    parseChunks (fuel + 1) (c.print ++ more) =
      (parseChunks fuel more).map fun result => result.map fun parsed =>
        (c.stripped.chunk :: parsed.1, parsed.2) := by
  have hbody := takeWhile_afterHeader hmore
  -- a chunk without a text in its header has something else
  have hsome : (c.stripped.header.join.isNone && (c.body.map ChangeLine.print).isEmpty &&
      !c.eof) = false := by
    have hwf := hwf.some
    have hbare := hplain.bare
    rcases c with ⟨header, body, eof⟩
    rcases header with - | - | ctx
    · simpa [ChunkText.stripped, or_iff_not_imp_left] using hwf
    · simpa [ChunkText.stripped, or_iff_not_imp_left] using hbare rfl
    · rfl
  rw [parseChunks, if_neg (by rw [nextHunk_chunk hwf hplain]; exact Bool.false_ne_true),
    takeHeader_chunk hwf hplain]
  simp only [hbody.1, hbody.2, takeEof_chunk hmore, hsome, Bool.false_eq_true, if_false,
    buildChunk_print]

theorem stops_of_header (h : c.header.isSome = true) (more : List Text) :
    Stops (c.print ++ more) := by
  obtain ⟨header, hheader⟩ := isSome_iff_exists.mp h
  obtain ⟨text, htext⟩ := headerLine_cons header
  rw [c.print_append, hheader, map_some, toList_some, htext]
  intro line hline
  obtain rfl : '@' :: text = line := some.inj hline
  exact ⟨rfl, strip_cons_ne (by decide) (by decide) head?_endOfFile text⟩

/-- **The chunks of a hunk are read as they were written.** -/
theorem parseChunks_print (hwf : ∀ c ∈ chunks, c.WellFormed)
    (hplain : ∀ c ∈ chunks, c.Plain)
    (hchain : chunks.IsChain fun c next => c.eof = true ∨ next.header.isSome = true)
    (hmore : Stops more) (hnext : nextHunk more = true) {fuel : ℕ}
    (hfuel : chunks.length < fuel) :
    parseChunks fuel (chunks.flatMap ChunkText.print ++ more) =
      some (.ok (chunks.map fun c => c.stripped.chunk, more)) := by
  induction chunks generalizing fuel with
  | nil =>
    cases fuel with
    | zero => cases hfuel
    | succ fuel => exact if_pos hnext
  | cons c rest ih =>
    cases fuel with
    | zero => cases hfuel
    | succ fuel =>
      rw [forall_mem_cons] at hwf hplain
      have hbehind : c.eof = false → Stops (rest.flatMap ChunkText.print ++ more) := by
        intro heof
        cases rest with
        | nil => exact hmore
        | cons next rest =>
          rcases (isChain_cons_cons.mp hchain).1 with htrue | hheader
          · rw [heof] at htrue
            cases htrue
          · rw [flatMap_cons, append_assoc]
            exact stops_of_header hheader _
      rw [flatMap_cons, append_assoc, parseChunks_print_cons hwf.1 hplain.1 hbehind,
        ih hwf.2 hplain.2 hchain.tail (Nat.lt_of_succ_lt_succ hfuel)]
      rfl

/-! ### Hunks -/

/-- The first line of a hunk. -/
def HunkHead (line : Text) : Prop :=
  ∃ marker ∈ [addFileMarker, deleteFileMarker, updateFileMarker], ∃ path,
    PathText path ∧ line = marker ++ path

theorem HunkText.WellFormed.print {hunk : HunkText} (h : hunk.WellFormed) :
    ∃ line rest, hunk.print = line :: rest ∧ HunkHead line := by
  cases hunk with
  | add path content => exact ⟨_, _, rfl, _, by simp, path, h.1, rfl⟩
  | delete path => exact ⟨_, _, rfl, _, by simp, path, h, rfl⟩
  | update path moveTo chunks => exact ⟨_, _, rfl, _, by simp, path, h.1, rfl⟩

theorem head?_of_mem_markers (h : marker ∈ [addFileMarker, deleteFileMarker, updateFileMarker]) :
    marker.head? = some '*' := by
  simp only [mem_cons, not_mem_nil, or_false] at h
  rcases h with rfl | rfl | rfl
  · exact head?_addFileMarker
  · exact head?_deleteFileMarker
  · exact head?_updateFileMarker

theorem HunkHead.head? (h : HunkHead line) : ∃ rest, line = '*' :: rest := by
  obtain ⟨marker, hmarker, path, -, rfl⟩ := h
  obtain ⟨rest, rfl⟩ := List.head?_eq_some_iff.mp (head?_of_mem_markers hmarker)
  exact ⟨rest ++ path, rfl⟩

/-- The first line of a hunk has no blanks around it. -/
theorem HunkHead.strip_eq (h : HunkHead line) : strip line = line := by
  obtain ⟨marker, hmarker, path, hpath, rfl⟩ := h
  exact hpath.strip_append (by decide) (head?_of_mem_markers hmarker)

def markers : List Text :=
  [addFileMarker, deleteFileMarker, updateFileMarker, endOfFile, environmentId, moveToMarker]

/-- The markers differ in their first word. -/
theorem take_marker_ne :
    ∀ marker ∈ markers, marker.head? = some '*' ∧ 7 ≤ marker.length ∧
      ∀ other ∈ markers, marker ≠ other → marker.take 7 ≠ other.take 7 := by
  decide

/-- What begins with one marker does not begin with another one. -/
theorem append_ne_of_ne {other : Text} (hmarker : marker ∈ markers) (hother : other ∈ markers)
    (hne : marker ≠ other) (path rest : Text) : marker ++ path ≠ other ++ rest := by
  intro heq
  obtain ⟨-, hlong, hdiffer⟩ := take_marker_ne marker hmarker
  have htake := congrArg (List.take 7) heq
  rw [take_append_of_le_length hlong,
    take_append_of_le_length (take_marker_ne other hother).2.1] at htake
  exact hdiffer other hother hne htake

theorem stripPrefix_of_ne {other : Text} (hmarker : marker ∈ markers) (hother : other ∈ markers)
    (hne : marker ≠ other) (path : Text) : stripPrefix other (marker ++ path) = none := by
  obtain ⟨text, htext⟩ := List.head?_eq_some_iff.mp (take_marker_ne marker hmarker).1
  have hstart : stripStart (marker ++ path) = marker ++ path := by
    rw [htext]
    exact stripStart_cons_of_not (by decide) _
  cases hfound : stripPrefix other (marker ++ path) with
  | none => rfl
  | some rest =>
    rw [stripPrefix, hstart] at hfound
    have heq := List.isPrefixOf?_eq_some_iff_append_eq.mp hfound
    exact absurd heq.symm (append_ne_of_ne hmarker hother hne path rest)

theorem HunkHead.stops (h : HunkHead line) (rest : List Text) :
    Stops (line :: rest) := by
  obtain ⟨text, htext⟩ := h.head?
  intro first hfirst
  obtain rfl : line = first := some.inj hfirst
  refine ⟨by rw [htext]; rfl, ?_⟩
  rw [h.strip_eq, ← List.append_nil endOfFile]
  obtain ⟨marker, hmarker, path, -, rfl⟩ := h
  have hne : ∀ marker ∈ [addFileMarker, deleteFileMarker, updateFileMarker], marker ≠ endOfFile := by
    decide
  have hmem : ∀ marker ∈ [addFileMarker, deleteFileMarker, updateFileMarker], marker ∈ markers := by
    decide
  exact append_ne_of_ne (hmem marker hmarker) (by decide) (hne marker hmarker) path []

theorem HunkHead.nextHunk (h : HunkHead line) (rest : List Text) :
    nextHunk (line :: rest) = true := by
  obtain ⟨marker, hmarker, path, -, rfl⟩ := h
  have hstarts : marker.isPrefixOf (marker ++ path) = true :=
    isPrefixOf_iff_prefix.mpr (prefix_append marker path)
  simp only [mem_cons, not_mem_nil, or_false] at hmarker
  rcases hmarker with rfl | rfl | rfl <;> simp [Patch.nextHunk, hstarts]

/-- The lines of hunks, or none. -/
def Hunks (more : List Text) : Prop := ∀ line ∈ more.head?, HunkHead line

theorem hunks_print (h : ∀ hunk ∈ hunks, hunk.WellFormed) :
    Hunks (hunks.flatMap HunkText.print) := by
  cases hunks with
  | nil => exact fun line hline => by cases hline
  | cons hunk hunks =>
    obtain ⟨first, rest, hprint, hhead⟩ := (h hunk mem_cons_self).print
    intro line hline
    rw [flatMap_cons, hprint] at hline
    obtain rfl : first = line := some.inj hline
    exact hhead

theorem Hunks.stops (h : Hunks more) : Stops more ∧ nextHunk more = true := by
  cases more with
  | nil => exact ⟨fun line hline => (by cases hline), rfl⟩
  | cons line rest => exact ⟨(h line rfl).stops rest, (h line rfl).nextHunk rest⟩

theorem parseHunks_add {content : List Text} (hpath : PathText path) (hne : content ≠ [])
    (hmore : Hunks more) (fuel : ℕ) :
    parseHunks (fuel + 1) ((HunkText.add path content).print ++ more) =
      (parseHunks fuel more).map fun result =>
        result.map ((HunkText.add path content).hunk :: ·) := by
  have hplus : ∀ line ∈ content.map ('+' :: ·), isPlus line = true := by
    intro line hline
    obtain ⟨text, -, rfl⟩ := List.mem_map.mp hline
    rfl
  have hrest : more.takeWhile isPlus = [] ∧ more.dropWhile isPlus = more := by
    refine takeWhile_of_head fun line hline => ?_
    obtain ⟨text, rfl⟩ := (hmore line hline).head?
    rfl
  have hlines : (content.map ('+' :: ·)).mapM plusLine = .ok content := by
    clear hne hplus
    induction content with
    | nil => rfl
    | cons text content ih =>
      rw [map_cons, mapM_cons, ih]
      rfl
  have hempty : (content.map ('+' :: ·)).isEmpty = false := by simpa using hne
  rw [HunkText.print, cons_append, parseHunks,
    stripPrefix_append (by decide) head?_addFileMarker]
  simp only [takeWhile_append_of_pos hplus, dropWhile_append_of_pos hplus, hrest.1,
    hrest.2, List.append_nil, hlines, hempty, Bool.false_eq_true, if_false, hpath.strip_eq]
  rfl

theorem parseHunks_delete (hpath : PathText path) (more : List Text) (fuel : ℕ) :
    parseHunks (fuel + 1) ((HunkText.delete path).print ++ more) =
      (parseHunks fuel more).map fun result => result.map ((HunkText.delete path).hunk :: ·) := by
  rw [HunkText.print, singleton_append, parseHunks,
    stripPrefix_of_ne (by decide) (by decide) (by decide),
    stripPrefix_append (by decide) head?_deleteFileMarker]
  simp only [hpath.strip_eq]
  rfl

theorem takeMove_update {moveTo : Option Text}
    (hwf : (HunkText.update path moveTo chunks).WellFormed)
    (hplain : (HunkText.update path moveTo chunks).Plain) (more : List Text) :
    takeMove ((moveTo.map (moveToMarker ++ ·)).toList ++
        (chunks.flatMap ChunkText.print ++ more)) =
      (moveTo, chunks.flatMap ChunkText.print ++ more) := by
  obtain ⟨-, hdest, hne, hchunks, -⟩ := hwf
  cases moveTo with
  | some dest =>
    rw [map_some, toList_some, singleton_append, takeMove,
      stripPrefix_append (by decide) head?_moveToMarker]
    simp only [(hdest dest rfl).strip_eq]
  | none =>
    obtain ⟨c, rest, rfl⟩ := exists_cons_of_ne_nil hne
    have hwf := hchunks c mem_cons_self
    have hexposed := hplain.2 rfl c rfl
    rw [map_none, toList_none, nil_append, flatMap_cons, append_assoc,
      c.print_append]
    generalize rest.flatMap ChunkText.print ++ more = behind
    -- the first line of the chunk is not a move target
    suffices hfirst : ∃ line rest, (c.header.map headerLine).toList ++ c.afterHeader behind =
        line :: rest ∧ stripPrefix moveToMarker line = none by
      obtain ⟨line, rest, hlines, hline⟩ := hfirst
      rw [hlines, takeMove, hline]
    rcases c with ⟨header, body, eof⟩
    cases header with
    | some header =>
      obtain ⟨text, htext⟩ := headerLine_cons header
      refine ⟨headerLine header, _, rfl, ?_⟩
      rw [htext]
      exact stripPrefix_cons_of_ne rfl (by decide) head?_moveToMarker text
    | none =>
      cases body with
      | cons line body =>
        refine ⟨line.print, _, rfl, ?_⟩
        refine stripPrefix_print head?_moveToMarker (Or.inl rfl) fun hmark => hexposed line.text ?_
        rcases line with ⟨mark, text⟩
        obtain rfl : mark = .context := hmark
        rfl
      | nil =>
        obtain rfl : eof = true := by simpa using hwf.some
        refine ⟨endOfFile, behind, rfl, ?_⟩
        rw [← List.append_nil endOfFile]
        exact stripPrefix_of_ne (by decide) (by decide) (by decide) []

theorem parseHunks_update {moveTo : Option Text}
    (hwf : (HunkText.update path moveTo chunks).WellFormed)
    (hplain : (HunkText.update path moveTo chunks).Plain) (hmore : Hunks more)
    {fuel : ℕ} (hfuel : chunks.length < fuel) :
    parseHunks (fuel + 1) ((HunkText.update path moveTo chunks).print ++ more) =
      (parseHunks fuel more).map fun result =>
        result.map ((HunkText.update path moveTo chunks).stripped.hunk :: ·) := by
  have hmove := takeMove_update hwf hplain more
  obtain ⟨hpath, -, hne, hchunks, hchain⟩ := hwf
  have hread := parseChunks_print hchunks hplain.1 hchain hmore.stops.1 hmore.stops.2 hfuel
  have hempty : (chunks.map fun c => c.stripped.chunk).isEmpty = false := by simpa using hne
  rw [HunkText.print, cons_append, append_assoc, parseHunks,
    stripPrefix_of_ne (by decide) (by decide) (by decide),
    stripPrefix_of_ne (by decide) (by decide) (by decide),
    stripPrefix_append (by decide) head?_updateFileMarker]
  simp only [hmove, hread, hempty, Bool.false_eq_true, if_false, hpath.strip_eq]
  rw [HunkText.stripped, HunkText.hunk, List.map_map]
  rfl

/-- **The hunks are read as they were written**, with enough fuel. -/
theorem parseHunks_print (hwf : ∀ hunk ∈ hunks, hunk.WellFormed)
    (hplain : ∀ hunk ∈ hunks, hunk.Plain) :
    ∃ enough, ∀ fuel, enough ≤ fuel → parseHunks fuel (hunks.flatMap HunkText.print) =
      some (.ok (hunks.map fun hunk => hunk.stripped.hunk)) := by
  induction hunks with
  | nil =>
    refine ⟨1, fun fuel hfuel => ?_⟩
    cases fuel with
    | zero => cases hfuel
    | succ fuel => rfl
  | cons hunk hunks ih =>
    rw [forall_mem_cons] at hwf hplain
    obtain ⟨enough, hread⟩ := ih hwf.2 hplain.2
    have hmore := hunks_print hwf.2
    -- fuel for the chunks of this hunk and for the other hunks
    suffices hstep : ∃ own, ∀ fuel, own ≤ fuel →
        parseHunks (fuel + 1) (hunk.print ++ hunks.flatMap HunkText.print) =
          (parseHunks fuel (hunks.flatMap HunkText.print)).map fun result =>
            result.map (hunk.stripped.hunk :: ·) by
      obtain ⟨own, hown⟩ := hstep
      refine ⟨max own enough + 1, fun fuel hfuel => ?_⟩
      cases fuel with
      | zero => cases hfuel
      | succ fuel =>
        have hle := Nat.le_of_succ_le_succ hfuel
        rw [flatMap_cons, hown fuel ((le_max_left own enough).trans hle),
          hread fuel ((le_max_right own enough).trans hle)]
        rfl
    cases hunk with
    | add path content => exact ⟨0, fun fuel _ => parseHunks_add hwf.1.1 hwf.1.2.1 hmore fuel⟩
    | delete path => exact ⟨0, fun fuel _ => parseHunks_delete hwf.1 _ fuel⟩
    | update path moveTo chunks =>
      exact ⟨chunks.length + 1, fun fuel hfuel => parseHunks_update hwf.1 hplain.1 hmore hfuel⟩

/-! ### The text -/

theorem lines_unlinesText {ls : List Text} (h : ∀ line ∈ ls, '\n' ∉ line) {final : Text}
    (hfinal : '\n' ∉ final) (hne : final ≠ []) : lines (unlinesText ls ++ final) = ls ++ [final] := by
  induction ls with
  | nil => exact lines_single hfinal hne
  | cons line ls ih =>
    rw [forall_mem_cons] at h
    rw [unlinesText, flatMap_cons, ← unlinesText, append_assoc, append_assoc,
      singleton_append, lines_append_feed h.1, ih h.2, cons_append]

theorem lineText_chunk (h : c.WellFormed) : ∀ line ∈ c.print, LineText line := by
  intro line hline
  simp only [ChunkText.print, mem_append, Option.mem_toList, map_eq_some_iff,
    List.mem_map] at hline
  rcases hline with ⟨header, hheader, rfl⟩ | ⟨change, hchange, rfl⟩ | heof
  · cases header with
    | none => exact ⟨by decide, by decide⟩
    | some ctx =>
      obtain ⟨-, htext⟩ := h.header ctx hheader
      exact ((htext.cons (c := ' ') (by decide) (by decide)).cons (c := '@') (by decide)
        (by decide)).cons (c := '@') (by decide) (by decide)
  · have hmark : ∀ mark : Mark, mark.char ≠ '\n' ∧ mark.char ≠ '\r' := fun mark => by
      cases mark <;> decide
    exact (h.body change hchange).cons (hmark change.mark).1 (hmark change.mark).2
  · split at heof
    · rw [mem_singleton.mp heof]
      exact ⟨by decide, by decide⟩
    · cases heof

theorem lineText_hunk {hunk : HunkText} (h : hunk.WellFormed) :
    ∀ line ∈ hunk.print, LineText line := by
  cases hunk with
  | add path content =>
    rw [HunkText.print, forall_mem_cons]
    refine ⟨h.1.lineText_append (by decide), fun line hline => ?_⟩
    obtain ⟨text, htext, rfl⟩ := List.mem_map.mp hline
    exact (h.2.2 text htext).cons (by decide) (by decide)
  | delete path =>
    rw [HunkText.print, forall_mem_cons]
    exact ⟨PathText.lineText_append h (by decide), fun line hline => by cases hline⟩
  | update path moveTo chunks =>
    obtain ⟨hpath, hdest, -, hchunks, -⟩ := h
    rw [HunkText.print, forall_mem_cons]
    refine ⟨hpath.lineText_append (by decide), fun line hline => ?_⟩
    rcases mem_append.mp hline with hmove | hchunk
    · obtain ⟨dest, hsome, rfl⟩ := map_eq_some_iff.mp (Option.mem_toList.mp hmove)
      exact (hdest dest hsome).lineText_append (by decide)
    · obtain ⟨c, hc, hline⟩ := mem_flatMap.mp hchunk
      exact lineText_chunk (hchunks c hc) line hline

/-- A break behind the text means nothing. -/
theorem strip_concat {first last : Char} (hfirst : isSpace first = false)
    (hlast : isSpace last = false) (middle : Text) (finalBreak : Bool) :
    strip (first :: (middle ++ [last]) ++ if finalBreak then ['\n'] else []) =
      first :: (middle ++ [last]) := by
  have htrim : (first :: (middle ++ [last])).rdropWhile isSpace = first :: (middle ++ [last]) := by
    rw [← cons_append, rdropWhile_concat_neg _ _ _ (by simp [hlast])]
  rw [strip, List.trim, cons_append, dropWhile_cons_of_neg (by simp [hfirst])]
  cases finalBreak with
  | false => rw [if_neg Bool.false_ne_true, List.append_nil, htrim]
  | true => rw [if_pos rfl, ← cons_append, rdropWhile_concat_pos _ _ _ (by decide), htrim]

theorem strip_printPatch (hunks : List HunkText) (finalBreak : Bool) :
    strip (printPatch hunks finalBreak) =
      unlinesText (beginPatch :: hunks.flatMap HunkText.print) ++ endPatch := by
  have hfirst : ∃ rest, beginPatch = '*' :: rest :=
    List.head?_eq_some_iff.mp (by decide)
  have hlast : ∃ rest, endPatch = rest ++ ['h'] := by
    have hend : endPatch.getLast? = some 'h' := by decide
    exact ⟨_, (dropLast_append_getLast? 'h' hend).symm⟩
  obtain ⟨start, hstart⟩ := hfirst
  obtain ⟨stop, hstop⟩ := hlast
  have hform : ∃ middle, unlinesText (beginPatch :: hunks.flatMap HunkText.print) ++ endPatch =
      '*' :: (middle ++ ['h']) := by
    refine ⟨start ++ ['\n'] ++ unlinesText (hunks.flatMap HunkText.print) ++ stop, ?_⟩
    rw [unlinesText, flatMap_cons, ← unlinesText, hstart, hstop]
    simp only [cons_append, append_assoc]
  obtain ⟨middle, hmiddle⟩ := hform
  rw [printPatch, ← append_assoc, hmiddle]
  exact strip_concat (by decide) (by decide) middle finalBreak

theorem dropEnvironment_print (h : Hunks more) : dropEnvironment more = more := by
  cases more with
  | nil => rfl
  | cons line rest =>
    have hhead := h line rfl
    refine if_neg fun hstarts => ?_
    rw [hhead.strip_eq] at hstarts
    obtain ⟨behind, hbehind⟩ := isPrefixOf_iff_prefix.mp hstarts
    obtain ⟨marker, hmarker, path, -, rfl⟩ := hhead
    have hmem : ∀ marker ∈ [addFileMarker, deleteFileMarker, updateFileMarker],
        marker ∈ markers ∧ environmentId ≠ marker := by decide
    obtain ⟨hmarkers, hne⟩ := hmem marker hmarker
    exact append_ne_of_ne (by decide) hmarkers hne behind path hbehind

/-- The reader of patches reads the hunks. -/
theorem parsePatch_print (hwf : ∀ hunk ∈ hunks, hunk.WellFormed)
    (fuel : ℕ) (finalBreak : Bool) :
    parsePatch fuel (printPatch hunks finalBreak) =
      parseHunks fuel (hunks.flatMap HunkText.print) := by
  have hbody : ∀ line ∈ hunks.flatMap HunkText.print, LineText line := by
    intro line hline
    obtain ⟨hunk, hhunk, hmem⟩ := mem_flatMap.mp hline
    exact lineText_hunk (hwf hunk hhunk) line hmem
  have hbegin : LineText beginPatch := ⟨by decide, by decide⟩
  have hend : LineText endPatch := ⟨by decide, by decide⟩
  have hlines : ∀ line ∈ beginPatch :: hunks.flatMap HunkText.print, LineText line :=
    forall_mem_cons.mpr ⟨hbegin, hbody⟩
  have hread : (lines (strip (printPatch hunks finalBreak))).map dropCarriage =
      beginPatch :: (hunks.flatMap HunkText.print ++ [endPatch]) := by
    rw [strip_printPatch, lines_unlinesText (fun line hline => (hlines line hline).1) hend.1
      (by decide), map_append, map_singleton, dropCarriage_eq hend, ← cons_append]
    exact congrArg (· ++ [endPatch])
      ((map_congr_left fun line hline => dropCarriage_eq (hlines line hline)).trans
        (List.map_id _))
  have hfirst : strip beginPatch = beginPatch := by decide
  have hlast : strip endPatch = endPatch := by decide
  simp only [parsePatch, hread, hfirst, ne_eq, not_true_eq_false, if_false,
    List.getLast?_append, List.getLast?_singleton, some_or, hlast, if_true,
    dropLast_concat, dropEnvironment_print (hunks_print hwf)]

/-- **A patch is read as it was written**, and every text is read. -/
theorem patch_round_trip :
    (∀ raw, ∃ result, ∀ fuel, raw.length < fuel → parsePatch fuel raw = some result) ∧
      ∀ (hunks : List HunkText) (finalBreak : Bool) (fuel : ℕ), hunks ≠ [] →
        (∀ hunk ∈ hunks, hunk.WellFormed) → (∀ hunk ∈ hunks, hunk.Plain) →
        (printPatch hunks finalBreak).length < fuel →
          parsePatch fuel (printPatch hunks finalBreak) =
            some (.ok (hunks.map fun hunk => hunk.stripped.hunk)) := by
  refine ⟨parsePatch_of_lt, fun hunks finalBreak fuel _ hwf hplain hfuel => ?_⟩
  obtain ⟨result, hresult⟩ := parsePatch_of_lt (printPatch hunks finalBreak)
  obtain ⟨enough, hread⟩ := parseHunks_print hwf hplain
  have hmore := hresult (max enough fuel) (lt_of_lt_of_le hfuel (le_max_right enough fuel))
  rw [parsePatch_print hwf, hread _ (le_max_left enough fuel)] at hmore
  rw [hresult fuel hfuel, ← hmore]

/-! ### Patches that are not read as they were written -/

theorem pathText_letter : PathText ['f'] :=
  ⟨by decide, ⟨by simp [isSpace], by simp [isSpace]⟩, by decide, by decide⟩

/-- An update hunk with one chunk. -/
def exampleHunk (header : Option (Option Text)) (body : List ChangeLine) : HunkText :=
  .update ['f'] none [⟨header, body, false⟩]

theorem wellFormed_exampleHunk {header : Option (Option Text)} {body : List ChangeLine}
    (hheader : ∀ ctx, header = some (some ctx) → ctx ≠ [] ∧ LineText ctx)
    (hbody : ∀ line ∈ body, LineText line.text) (hsome : header.isSome = true ∨ body ≠ []) :
    (exampleHunk header body).WellFormed := by
  refine ⟨pathText_letter, fun dest hdest => (by cases hdest), cons_ne_nil _ _, ?_,
    isChain_singleton _⟩
  rw [forall_mem_singleton]
  exact ⟨hheader, hbody, by rw [← or_assoc]; exact Or.inl hsome⟩

/-- The blanks before a header are not kept, nothing is behind a bare header, and an exposed context
line is taken for the end of the patch, for a header and for a move target. -/
theorem patch_not_read_as_written :
    ((exampleHunk (some (some [' ', 'x'])) []).WellFormed ∧
      parsePatch 100 (printPatch [exampleHunk (some (some [' ', 'x'])) []] true) ≠
        some (.ok [(exampleHunk (some (some [' ', 'x'])) []).hunk])) ∧
    ((exampleHunk (some none) []).WellFormed ∧
      parsePatch 100 (printPatch [exampleHunk (some none) []] true) ≠
        some (.ok [(exampleHunk (some none) []).hunk])) ∧
    ∀ text ∈ [endPatch, headerMarker ++ ['x'], moveToMarker ++ ['x']],
      (exampleHunk none [⟨.context, text⟩]).WellFormed ∧
        parsePatch 100 (printPatch [exampleHunk none [⟨.context, text⟩]] true) ≠
          some (.ok [(exampleHunk none [⟨.context, text⟩]).hunk]) := by
  refine ⟨?_, ?_, ?_⟩
  · have hwf : (exampleHunk (some (some [' ', 'x'])) []).WellFormed := by
      refine wellFormed_exampleHunk (fun ctx hctx => ?_) (fun line hline => by cases hline)
        (Or.inl rfl)
      cases hctx
      exact ⟨by decide, by decide, by decide⟩
    refine ⟨hwf, fun hread => ?_⟩
    rw [parsePatch_print (by simpa using hwf)] at hread
    have hparsed : parseHunks 100 ([exampleHunk (some (some [' ', 'x'])) []].flatMap
        HunkText.print) = some (.ok [.updateFile ['f'] none [buildChunk (some ['x']) [] false]]) :=
      rfl
    rw [hparsed] at hread
    cases hread
  · have hwf : (exampleHunk (some none) []).WellFormed :=
      wellFormed_exampleHunk (fun ctx hctx => by cases hctx) (fun line hline => by cases hline)
        (Or.inl rfl)
    refine ⟨hwf, fun hread => ?_⟩
    rw [parsePatch_print (by simpa using hwf)] at hread
    cases hread
  · intro text htext
    have hlines : ∀ text ∈ [endPatch, headerMarker ++ ['x'], moveToMarker ++ ['x']],
        '\n' ∉ text ∧ text.getLast? ≠ some '\r' := by decide
    have hwf : (exampleHunk none [⟨.context, text⟩]).WellFormed := by
      refine wellFormed_exampleHunk (fun ctx hctx => by cases hctx) ?_ (Or.inr (by simp))
      rw [forall_mem_singleton]
      exact hlines text htext
    refine ⟨hwf, fun hread => ?_⟩
    rw [parsePatch_print (by simpa using hwf)] at hread
    simp only [mem_cons, not_mem_nil, or_false] at htext
    rcases htext with rfl | rfl | rfl
    · cases hread
    · cases hread
    · cases hread

theorem patch_round_trip_letter :
    parsePatch 100 (printPatch [exampleHunk none [⟨.added, ['x']⟩]] true) =
      some (.ok [.updateFile ['f'] none [buildChunk none [['+', 'x']] false]]) := by
  refine patch_round_trip.2 [exampleHunk none [⟨.added, ['x']⟩]] true 100 (cons_ne_nil _ _)
    ?_ ?_ (by decide)
  · rw [forall_mem_singleton]
    refine wellFormed_exampleHunk (fun ctx hctx => by cases hctx) ?_ (Or.inr (by simp))
    rw [forall_mem_singleton]
    exact ⟨by decide, by decide⟩
  · rw [forall_mem_singleton]
    refine ⟨?_, fun _ c hc text htext => ?_⟩
    · rw [forall_mem_singleton]
      exact ⟨fun h => (by cases h), fun text h => (by cases h), fun text h => (by cases h)⟩
    · cases hc
      cases htext

end Patch

end HaskellAgent
