import HaskellAgent.Dialect.ApplyPatch
import HaskellAgent.Lib.JoinTrimmed
import HaskellAgent.Loop.InputItems

/-!
# The text of a patch

A patch is read line by line.  Hunks begin with a marker; the chunks of an update hunk are runs of
change lines with a header before them and an end-of-file marker behind them, either of which may be
missing.

The functions that read hunks and chunks take an amount of fuel, of which each call uses one; `none`
says that it was used up.
-/

open List

namespace HaskellAgent

namespace Patch

/-! ### Lines -/

def strip (text : Text) : Text := text.trim isSpace

def stripStart (text : Text) : Text := text.dropWhile isSpace

/-- `Text.lines`: nothing comes behind the last line feed. -/
@[grind =] def lines : Text → List Text
  | [] => []
  | c :: rest =>
      if c = '\n' then [] :: lines rest
      else
        match lines rest with
        | [] => [[c]]
        | line :: more => (c :: line) :: more

theorem lines_append_feed {line : Text} (h : '\n' ∉ line) (rest : Text) :
    lines (line ++ '\n' :: rest) = line :: lines rest := by
  induction line with
  | nil => rw [nil_append, lines, if_pos rfl]
  | cons c line ih =>
    have hc : c ≠ '\n' := fun heq => h (heq ▸ mem_cons_self)
    rw [cons_append, lines, if_neg hc, ih fun hmem => h (mem_cons_of_mem c hmem)]

theorem lines_single {line : Text} (h : '\n' ∉ line) (hne : line ≠ []) : lines line = [line] := by
  induction line with
  | nil => exact absurd rfl hne
  | cons c line ih =>
    have hc : c ≠ '\n' := fun heq => h (heq ▸ mem_cons_self)
    have hrest : '\n' ∉ line := fun hmem => h (mem_cons_of_mem c hmem)
    rw [lines, if_neg hc]
    cases line with
    | nil => rfl
    | cons d line => rw [ih hrest (cons_ne_nil d line)]

/-- `Text.stripSuffix "\r"`, where there is one. -/
def dropCarriage (line : Text) : Text :=
  if line.getLast? = some '\r' then line.dropLast else line

/-- The marker may have blanks before it. -/
def stripPrefix (marker line : Text) : Option Text := marker.isPrefixOf? (stripStart line)

def beginPatch : Text := "*** Begin Patch".toList

def endPatch : Text := "*** End Patch".toList

def environmentId : Text := "*** Environment ID:".toList

def addFileMarker : Text := "*** Add File: ".toList

def deleteFileMarker : Text := "*** Delete File: ".toList

def updateFileMarker : Text := "*** Update File: ".toList

def moveToMarker : Text := "*** Move to: ".toList

def endOfFile : Text := "*** End of File".toList

def bareHeader : Text := "@@".toList

def headerMarker : Text := "@@ ".toList

/-! ### Chunks -/

def isPlus (line : Text) : Bool := line.head? == some '+'

def isChangeLine (line : Text) : Bool :=
  line.head? == some '+' || line.head? == some '-' || line.head? == some ' '

def startsWithOneOf (line : Text) (chars : List Char) : Bool := line.head?.any (chars.contains ·)

@[grind =] def contextIndices (oldIndex newIndex : ℕ) : List Text → List (ℕ × ℕ)
  | [] => []
  | line :: rest =>
      match line.head? with
      | some ' ' => (newIndex, oldIndex) :: contextIndices (oldIndex + 1) (newIndex + 1) rest
      | some '-' => contextIndices (oldIndex + 1) newIndex rest
      | some '+' => contextIndices oldIndex (newIndex + 1) rest
      | _ => contextIndices oldIndex newIndex rest

def buildChunk (header : Option Text) (body : List Text) (eof : Bool) : UpdateChunk where
  chunkContext := header
  chunkOld := (body.filter (startsWithOneOf · ['-', ' '])).map (·.drop 1)
  chunkNew := (body.filter (startsWithOneOf · ['+', ' '])).map (·.drop 1)
  chunkContextIndices := contextIndices 0 0 body
  chunkEof := eof

/-- The chunks of an update hunk end here. -/
def nextHunk : List Text → Bool
  | [] => true
  | line :: _ =>
      addFileMarker.isPrefixOf line || deleteFileMarker.isPrefixOf line ||
        updateFileMarker.isPrefixOf line || strip line == endPatch

/-- The header of a chunk; a bare one says nothing. -/
def takeHeader : List Text → Option Text × List Text
  | [] => (none, [])
  | line :: rest =>
      if line = bareHeader then (none, rest)
      else
        match stripPrefix headerMarker line with
        | some ctx => (some (strip ctx), rest)
        | none => (none, line :: rest)

def takeEof : List Text → Bool × List Text
  | [] => (false, [])
  | line :: rest => if strip line = endOfFile then (true, rest) else (false, line :: rest)

@[grind =] def parseChunks : ℕ → List Text → Option (Except Text (List UpdateChunk × List Text))
  | 0, _ => none
  | fuel + 1, input =>
      if nextHunk input then some (.ok ([], input))
      else
        let header := (takeHeader input).1
        let body := (takeHeader input).2.takeWhile isChangeLine
        let afterBody := takeEof ((takeHeader input).2.dropWhile isChangeLine)
        if header.isNone && body.isEmpty && !afterBody.1 then
          some (.error
            ("Invalid update line; expected '@@', '+', '-', or space prefix: ".toList ++
              (input.headD []).take 200))
        else
          (parseChunks fuel afterBody.2).map fun result => result.map fun parsed =>
            (buildChunk header body afterBody.1 :: parsed.1, parsed.2)

/-! ### Hunks -/

def plusLine (line : Text) : Except Text Text :=
  if isPlus line then .ok line.tail else .error "Expected a '+' line in an add-file hunk".toList

def takeMove : List Text → Option Text × List Text
  | [] => (none, [])
  | line :: rest =>
      match stripPrefix moveToMarker line with
      | some dest => (some (strip dest), rest)
      | none => (none, line :: rest)

@[grind =] def parseHunks : ℕ → List Text → Option (Except Text (List Hunk))
  | 0, _ => none
  | _ + 1, [] => some (.ok [])
  | fuel + 1, line :: rest =>
      match stripPrefix addFileMarker line with
      | some path =>
          let addLines := rest.takeWhile isPlus
          match addLines.mapM plusLine with
          | .error err => some (.error err)
          | .ok contents =>
              if addLines.isEmpty then
                some (.error ("Add file hunk is empty for path '".toList ++ path ++ ['\'']))
              else
                (parseHunks fuel (rest.dropWhile isPlus)).map fun result =>
                  result.map (.addFile (strip path) (unlinesText contents) :: ·)
      | none =>
          match stripPrefix deleteFileMarker line with
          | some path =>
              (parseHunks fuel rest).map fun result => result.map (.deleteFile (strip path) :: ·)
          | none =>
              match stripPrefix updateFileMarker line with
              | some path =>
                  match parseChunks fuel (takeMove rest).2 with
                  | none => none
                  | some (.error err) => some (.error err)
                  | some (.ok (chunks, remaining)) =>
                      if chunks.isEmpty then
                        some (.error
                          ("Update file hunk for path '".toList ++ path ++ "' is empty".toList))
                      else
                        (parseHunks fuel remaining).map fun result =>
                          result.map (.updateFile (strip path) (takeMove rest).1 chunks :: ·)
              | none =>
                  -- blank lines between hunks mean nothing
                  if (strip line).isEmpty then parseHunks fuel rest
                  else some (.error ("Invalid patch hunk: unexpected line: ".toList ++ line))

def dropEnvironment : List Text → List Text
  | [] => []
  | line :: rest => if environmentId.isPrefixOf (strip line) then rest else line :: rest

def parsePatch (fuel : ℕ) (raw : Text) : Option (Except Text (List Hunk)) :=
  match (lines (strip raw)).map dropCarriage with
  | [] => some (.error "Invalid patch: empty".toList)
  | first :: rest =>
      if strip first ≠ beginPatch then
        some (.error "The first line of the patch must be '*** Begin Patch'".toList)
      else
        match rest.getLast? with
        | none => some (.error "The last line of the patch must be '*** End Patch'".toList)
        | some lastLine =>
            if strip lastLine = endPatch then parseHunks fuel (dropEnvironment rest.dropLast)
            else some (.error "The last line of the patch must be '*** End Patch'".toList)

/-! ### Every step reads a line -/

theorem length_takeHeader_le (input : List Text) : (takeHeader input).2.length ≤ input.length := by
  cases input with
  | nil => exact le_refl _
  | cons line rest =>
    simp only [takeHeader]
    split
    · exact Nat.le_succ _
    · split
      · exact Nat.le_succ _
      · exact le_refl _

theorem length_takeEof_le (input : List Text) : (takeEof input).2.length ≤ input.length := by
  cases input with
  | nil => exact le_refl _
  | cons line rest =>
    simp only [takeEof]
    split
    · exact Nat.le_succ _
    · exact le_refl _

variable {input : List Text}

theorem length_takeEof_lt (h : (takeEof input).1 = true) :
    (takeEof input).2.length < input.length := by
  cases input with
  | nil => cases h
  | cons line rest =>
    simp only [takeEof] at h ⊢
    split at h
    · next heof => simp [heof]
    · cases h

theorem length_takeMove_le (input : List Text) : (takeMove input).2.length ≤ input.length := by
  cases input with
  | nil => exact le_refl _
  | cons line rest =>
    simp only [takeMove]
    split
    · exact Nat.le_succ _
    · exact le_refl _

/-- A chunk that is not empty has been read from some lines. -/
theorem length_afterBody_lt
    (h : ((takeHeader input).1.isNone && ((takeHeader input).2.takeWhile isChangeLine).isEmpty &&
      !(takeEof ((takeHeader input).2.dropWhile isChangeLine)).1) = false) :
    (takeEof ((takeHeader input).2.dropWhile isChangeLine)).2.length < input.length := by
  have hheader := length_takeHeader_le input
  have hsplit := congrArg List.length
    (takeWhile_append_dropWhile (p := isChangeLine) (l := (takeHeader input).2))
  rw [length_append] at hsplit
  have heof := length_takeEof_le ((takeHeader input).2.dropWhile isChangeLine)
  cases hsome : (takeHeader input).1 with
  | some ctx =>
    -- a header with a text has been read from a line
    have hlt : (takeHeader input).2.length < input.length := by
      cases input with
      | nil => cases hsome
      | cons line rest =>
        simp only [takeHeader] at hsome ⊢
        split at hsome
        · cases hsome
        · next hbare =>
          rw [if_neg hbare]
          split at hsome
          · exact Nat.lt_succ_self _
          · cases hsome
    omega
  | none =>
    rw [hsome] at h
    cases hbody : (takeHeader input).2.takeWhile isChangeLine with
    | cons line rest =>
      rw [hbody, length_cons] at hsplit
      omega
    | nil =>
      rw [hbody] at h
      have heoflt := length_takeEof_lt
        (by simpa using h : (takeEof ((takeHeader input).2.dropWhile isChangeLine)).1 = true)
      omega

/-- **The chunks are read with fuel for one step more than there are lines**, and no more lines are
left than there were. -/
theorem parseChunks_of_lt {fuel : ℕ} (h : input.length < fuel) :
    ∃ result, (∀ fuel', input.length < fuel' → parseChunks fuel' input = some result) ∧
      ∀ chunks leftover, result = .ok (chunks, leftover) → leftover.length ≤ input.length := by
  induction fuel generalizing input with
  | zero => cases h
  | succ fuel ih =>
    by_cases hnext : nextHunk input = true
    · refine ⟨.ok ([], input), fun fuel' hfuel => ?_, fun chunks leftover heq => ?_⟩
      · cases fuel' with
        | zero => cases hfuel
        | succ fuel' => rw [parseChunks, if_pos hnext]
      · cases heq
        exact le_refl _
    cases hempty : ((takeHeader input).1.isNone &&
        ((takeHeader input).2.takeWhile isChangeLine).isEmpty &&
        !(takeEof ((takeHeader input).2.dropWhile isChangeLine)).1) with
    | true =>
      refine ⟨.error ("Invalid update line; expected '@@', '+', '-', or space prefix: ".toList ++
        (input.headD []).take 200), fun fuel' hfuel => ?_, fun chunks leftover heq => ?_⟩
      · cases fuel' with
        | zero => cases hfuel
        | succ fuel' =>
          rw [parseChunks, if_neg hnext]
          simp only [hempty, if_true]
      · cases heq
    | false =>
      have hlt := length_afterBody_lt hempty
      obtain ⟨result, hresult, hleft⟩ := ih (lt_of_lt_of_le hlt (Nat.lt_succ_iff.mp h))
      refine ⟨result.map fun parsed => (buildChunk (takeHeader input).1
        ((takeHeader input).2.takeWhile isChangeLine)
        (takeEof ((takeHeader input).2.dropWhile isChangeLine)).1 :: parsed.1, parsed.2),
        fun fuel' hfuel => ?_, fun chunks leftover heq => ?_⟩
      · cases fuel' with
        | zero => cases hfuel
        | succ fuel' =>
          rw [parseChunks, if_neg hnext]
          simp only [hempty, Bool.false_eq_true, if_false]
          rw [hresult fuel' (lt_of_lt_of_le hlt (Nat.lt_succ_iff.mp hfuel))]
          rfl
      · cases result with
        | error err => cases heq
        | ok parsed =>
          cases heq
          exact (hleft parsed.1 parsed.2 rfl).trans hlt.le

/-! ### Change lines -/

inductive Mark
  | context
  | removed
  | added
  deriving DecidableEq

def Mark.char : Mark → Char
  | .context => ' '
  | .removed => '-'
  | .added => '+'

structure ChangeLine where
  mark : Mark
  text : Text
  deriving DecidableEq

def ChangeLine.print (line : ChangeLine) : Text := line.mark.char :: line.text

/-- The chunk of a header, change lines and an end-of-file marker. -/
def Built (chunk : UpdateChunk) : Prop :=
  ∃ (header : Option Text) (body : List ChangeLine) (eof : Bool),
    chunk = buildChunk header (body.map ChangeLine.print) eof

/-! ### Every patch is read -/

/-- **The hunks are read with fuel for one step more than there are lines.** -/
theorem parseHunks_of_lt (input : List Text) :
    ∃ result, ∀ fuel, input.length < fuel → parseHunks fuel input = some result := by
  induction hlength : input.length using Nat.strong_induction_on generalizing input with
  | _ length ih =>
    subst hlength
    cases input with
    | nil =>
      refine ⟨.ok [], fun fuel hfuel => ?_⟩
      cases fuel with
      | zero => cases hfuel
      | succ fuel => rw [parseHunks]
    | cons line rest =>
      have hrest : ∀ remaining : List Text, remaining.length ≤ rest.length →
          ∃ result, ∀ fuel, rest.length < fuel → parseHunks fuel remaining = some result := by
        intro remaining hle
        obtain ⟨result, hresult⟩ := ih remaining.length (Nat.lt_succ_of_le hle) remaining rfl
        exact ⟨result, fun fuel hfuel => hresult fuel (lt_of_le_of_lt hle hfuel)⟩
      -- with fuel for the rest, the line decides what is read
      suffices hstep : ∃ result, ∀ fuel, rest.length < fuel →
          parseHunks (fuel + 1) (line :: rest) = some result by
        obtain ⟨result, hresult⟩ := hstep
        refine ⟨result, fun fuel hfuel => ?_⟩
        cases fuel with
        | zero => cases hfuel
        | succ fuel => exact hresult fuel (Nat.lt_of_succ_lt_succ hfuel)
      simp only [parseHunks]
      cases stripPrefix addFileMarker line with
      | some path =>
        dsimp only
        cases (rest.takeWhile isPlus).mapM plusLine with
        | error err => exact ⟨_, fun _ _ => rfl⟩
        | ok contents =>
          dsimp only
          split
          · exact ⟨_, fun _ _ => rfl⟩
          · obtain ⟨result, hresult⟩ := hrest _ (dropWhile_suffix isPlus).length_le
            exact ⟨_, fun fuel hfuel => by rw [hresult fuel hfuel]; rfl⟩
      | none =>
        dsimp only
        cases stripPrefix deleteFileMarker line with
        | some path =>
          obtain ⟨result, hresult⟩ := hrest rest (le_refl _)
          exact ⟨_, fun fuel hfuel => by rw [hresult fuel hfuel]; rfl⟩
        | none =>
          dsimp only
          cases stripPrefix updateFileMarker line with
          | some path =>
            dsimp only
            have hmove := length_takeMove_le rest
            obtain ⟨chunks, hchunks, hleft⟩ :=
              parseChunks_of_lt (Nat.lt_succ_self (takeMove rest).2.length)
            have hread : ∀ fuel, rest.length < fuel →
                parseChunks fuel (takeMove rest).2 = some chunks :=
              fun fuel hfuel => hchunks fuel (lt_of_le_of_lt hmove hfuel)
            cases chunks with
            | error err => exact ⟨_, fun fuel hfuel => by rw [hread fuel hfuel]⟩
            | ok parsed =>
              obtain ⟨result, hresult⟩ := hrest parsed.2 ((hleft parsed.1 parsed.2 rfl).trans hmove)
              by_cases hempty : parsed.1.isEmpty = true
              · refine ⟨.error ("Update file hunk for path '".toList ++ path ++
                  "' is empty".toList), fun fuel hfuel => ?_⟩
                rw [hread fuel hfuel]
                simp only [hempty, if_true]
              · refine ⟨result.map (.updateFile (strip path) (takeMove rest).1 parsed.1 :: ·),
                  fun fuel hfuel => ?_⟩
                rw [hread fuel hfuel]
                simp only [hempty, hresult fuel hfuel]
                rfl
          | none =>
            dsimp only
            split
            · exact hrest rest (le_refl _)
            · exact ⟨_, fun _ _ => rfl⟩

theorem length_lines_le (text : Text) : (lines text).length ≤ text.length := by
  induction text with
  | nil => exact le_refl _
  | cons c rest ih =>
    simp only [lines]
    split
    · exact Nat.succ_le_succ ih
    · split
      · exact Nat.succ_le_succ (Nat.zero_le _)
      · next line more hlines =>
        rw [hlines] at ih
        exact ih.trans (Nat.le_succ _)

theorem length_strip_le (text : Text) : (strip text).length ≤ text.length :=
  ((List.rdropWhile_prefix isSpace _).length_le).trans (dropWhile_suffix isSpace).length_le

/-- **Every patch is read.** -/
theorem parsePatch_of_lt (raw : Text) :
    ∃ result, ∀ fuel, raw.length < fuel → parsePatch fuel raw = some result := by
  have hlines : ((lines (strip raw)).map dropCarriage).length ≤ raw.length := by
    rw [length_map]
    exact (length_lines_le _).trans (length_strip_le raw)
  simp only [parsePatch]
  cases hinput : (lines (strip raw)).map dropCarriage with
  | nil => exact ⟨_, fun _ _ => rfl⟩
  | cons first rest =>
    rw [hinput, length_cons] at hlines
    dsimp only
    split
    · exact ⟨_, fun _ _ => rfl⟩
    · cases rest.getLast? with
      | none => exact ⟨_, fun _ _ => rfl⟩
      | some lastLine =>
        dsimp only
        split
        · obtain ⟨result, hresult⟩ := parseHunks_of_lt (dropEnvironment rest.dropLast)
          refine ⟨result, fun fuel hfuel => hresult fuel (lt_of_le_of_lt ?_ hfuel)⟩
          have hdrop : (dropEnvironment rest.dropLast).length ≤ rest.dropLast.length := by
            cases rest.dropLast with
            | nil => exact le_refl _
            | cons line more =>
              simp only [dropEnvironment]
              split
              · exact Nat.le_succ _
              · exact le_refl _
          rw [length_dropLast] at hdrop
          omega
        · exact ⟨_, fun _ _ => rfl⟩

end Patch

end HaskellAgent
