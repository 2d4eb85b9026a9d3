import HaskellAgent.Dialect.PatchParser
import HaskellAgent.Lib.Utf8
import Mathlib.Algebra.Order.Ring.Int

/-!
# Reading a part of a file

A file is read in two passes: the first one counts its lines, the second one keeps the lines that are
asked for.  The plain reader has the whole text and cuts it.

A handle is the list of the chunks that it gives, each of which has at least one byte.  The decoder of
bytes that may be invalid is a parameter.
-/

open List Option

namespace HaskellAgent
namespace ReadFile

open Patch

abbrev Bytes := List UInt8

structure ReadFileArgs where
  offset : Option ℤ
  limit : Option ℤ

def maxReadLines : ℤ := 1000

def maxReadTokens : ℕ := 25000

/-- A line that is kept has at most so many bytes. -/
def maxSelectedLineBytes : ℕ := maxReadTokens * 8

/-! ### Lines and their numbers -/

/-- A newline at the end does not begin a line. -/
def readFileLines (content : Text) : List Text :=
  let fields := content.splitOn '\n'
  if content.getLast? = some '\n' then
    match fields.reverse with
    | [] :: rest => rest.reverse
    | _ => fields
  else fields

def resolveReadStartLine (totalLines : ℤ) (offset : Option ℤ) : ℤ :=
  let n := offset.getD 1
  if n = 0 then 1
  else if n > 0 then n
  else max 1 (totalLines + n + 1)

def estimateTokens (text : Text) : ℕ := max 1 (text.length / 4)

def showInt (n : ℤ) : Text := (toString n).toList

def tokenLimitMessage (tokens : ℕ) (rangeSpecified : Bool) (args : ReadFileArgs) : Text :=
  if rangeSpecified then
    "The requested line range (offset=".toList ++ args.offset.elim ['1'] showInt ++
      ", limit=".toList ++ args.limit.elim "to end".toList showInt ++ ") contains ".toList ++
      showInt tokens ++ " tokens, which exceeds the maximum allowed tokens (".toList ++
      showInt maxReadTokens ++
      " tokens).\nTry a smaller `limit`, a different starting `offset`, or use the 'grep' tool to search for specific content.".toList
  else
    "File content (".toList ++ showInt tokens ++
      " tokens) exceeds maximum allowed tokens (".toList ++ showInt maxReadTokens ++
      " tokens).\nTry a smaller `limit`, a different starting `offset`, or use the 'grep' tool to search for specific content.".toList

/-- The first line and every tenth line of the file have their numbers. -/
def formatSelectedLine (start n : ℤ) (line : Text) : Text :=
  if n = start ∨ n % 10 = 0 then showInt n ++ ['→'] ++ line else line

/-- The lines from a number on. -/
def numberLines (start n : ℤ) : List Text → List Text
  | [] => []
  | line :: rest => formatSelectedLine start n line :: numberLines start (n + 1) rest

def formatNumbered (start : ℤ) (ls : List Text) : Text :=
  List.intercalate ['\n'] (numberLines start start ls)

def beyondEnd (start total : ℤ) : Text :=
  "Offset ".toList ++ showInt start ++ " is beyond the end of the file (".toList ++ showInt total ++
    " lines).".toList

def takeCount (args : ReadFileArgs) : ℤ := min maxReadLines (args.limit.getD maxReadLines)

def rangeSpecified (args : ReadFileArgs) : Bool := args.offset.isSome || args.limit.isSome

/-! ### The plain reader -/

def formatReadFile (content : Text) (args : ReadFileArgs) : Except Text Text :=
  if args.limit.any (· ≤ 0) then .error "limit must be a positive integer".toList
  else
    let allLines := readFileLines content
    let total := allLines.length
    let start := resolveReadStartLine total args.offset
    let window := allLines.drop (start - 1).toNat
    let taken := window.take (takeCount args).toNat
    let numbered := formatNumbered start taken
    let tokens := estimateTokens numbered
    if start > total ∧ total > 0 then .ok (beyondEnd start total)
    else if tokens > maxReadTokens then
      .error (tokenLimitMessage tokens (rangeSpecified args) args)
    else .ok numbered

/-! ### The reader with two passes -/

/-- The numbers of newlines and of checked bytes, and the last byte that was read. -/
def countFrom (newlines : ℕ) (seen : Bool) (lastByte : UInt8) (checked : ℕ) :
    List Bytes → Except Text ℕ
  | [] => .ok (if !seen then 1 else if lastByte = 10 then newlines else newlines + 1)
  | chunk :: rest =>
      let start := chunk.take (8192 - checked)
      if (0 : UInt8) ∈ start then .error "Cannot read binary file".toList
      else
        match chunk.getLast? with
        | none => .ok (if !seen then 1 else if lastByte = 10 then newlines else newlines + 1)
        | some byte =>
            countFrom (newlines + chunk.count 10) true byte (checked + start.length) rest

def countFileLines (chunks : List Bytes) : Except Text ℕ := countFrom 0 false 0 0 chunks

section Window

variable (decode : Bytes → Text) (start takeCount : ℤ) (range : Bool) (args : ReadFileArgs)

/-- The lines that are kept, their characters, and whether they are enough. -/
def addLine (lineNo : ℤ) (chunks : List Bytes) (selected : List Text) (outChars : ℕ) (done : Bool) :
    List Text × ℕ × Bool :=
  if lineNo < start then (selected, outChars, done)
  else if lineNo ≥ start + takeCount then (selected, outChars, true)
  else
    let raw := chunks.reverse.flatten
    let rendered := formatSelectedLine start lineNo (decode raw)
    let chars := outChars + (rendered.length + if selected.isEmpty then 0 else 1)
    if chars / 4 > maxReadTokens then (selected, chars, true)
    else (rendered :: selected, chars, decide ((selected.length : ℤ) + 1 ≥ takeCount))

def finish (selected : List Text) (outChars : ℕ) : Except Text Text :=
  if outChars / 4 > maxReadTokens then
    .error (tokenLimitMessage (max 1 (outChars / 4)) range args)
  else if selected.isEmpty ∧ outChars = 0 ∧ start = 1 then .ok (formatNumbered 1 [[]])
  else .ok (List.intercalate ['\n'] selected.reverse)

/-- The result, or what has been read of a line that is not ended yet. -/
inductive Window
  | done (result : Except Text Text)
  | more (lineNo : ℤ) (chunks : List Bytes) (selected : List Text) (outChars : ℕ)

def consume (bytes : Bytes) (lineNo : ℤ) (chunks : List Bytes) (selected : List Text)
    (outChars : ℕ) : Window :=
  if hempty : bytes.isEmpty then .more lineNo chunks selected outChars
  else
    let before := bytes.takeWhile (· != 10)
    let after := bytes.dropWhile (· != 10)
    let chunks' :=
      if lineNo < start then [] else if before.isEmpty then chunks else before :: chunks
    let bytesInLine := (chunks'.map List.length).sum
    if bytesInLine > maxSelectedLineBytes ∧ lineNo ≥ start ∧ lineNo < start + takeCount then
      .done (.error (tokenLimitMessage (maxReadTokens + 1) range args))
    else if after.isEmpty then .more lineNo chunks' selected outChars
    else
      let added := addLine decode start takeCount lineNo chunks' selected outChars false
      if added.2.2 then .done (finish start range args added.1 added.2.1)
      else consume (after.drop 1) (lineNo + 1) [] added.1 added.2.1
termination_by bytes.length
decreasing_by
  have hle := (dropWhile_suffix (l := bytes) (· != 10)).length_le
  have hpos := length_pos_iff.mpr (by simpa using hempty : bytes ≠ [])
  rw [length_drop]
  omega

/-- The last line may have no newline. -/
def finishLine (lineNo : ℤ) (chunks : List Bytes) (selected : List Text) (outChars : ℕ) :
    Except Text Text :=
  if chunks.isEmpty then finish start range args selected outChars
  else
    let added := addLine decode start takeCount lineNo chunks selected outChars false
    finish start range args added.1 added.2.1

/-- An empty chunk is the end of the file. -/
def go (lineNo : ℤ) (currentChunks : List Bytes) (selected : List Text) (outChars : ℕ) :
    List Bytes → Except Text Text
  | [] => finishLine decode start takeCount range args lineNo currentChunks selected outChars
  | chunk :: rest =>
      if chunk.isEmpty then
        finishLine decode start takeCount range args lineNo currentChunks selected outChars
      else
        match consume decode start takeCount range args chunk lineNo currentChunks selected
          outChars with
        | .done result => result
        | .more lineNo chunks selected outChars => go lineNo chunks selected outChars rest

def collectWindow (chunks : List Bytes) : Except Text Text :=
  go decode start takeCount range args 1 [] [] 0 chunks

end Window

/-- The file is cut into chunks twice. -/
def streamReadFile (decode : Bytes → Text) (counted collected : List Bytes) (args : ReadFileArgs) :
    Except Text Text :=
  if args.limit.any (· ≤ 0) then .error "limit must be a positive integer".toList
  else
    match countFileLines counted with
    | .error err => .error err
    | .ok total =>
        let start := resolveReadStartLine total args.offset
        if start > total ∧ total > 0 then .ok (beyondEnd start total)
        else collectWindow decode start (takeCount args) (rangeSpecified args) args collected

/-! ### Lines -/

theorem splitOn_eq (content : Text) :
    content.splitOn '\n' =
      lines content ++ if content = [] ∨ content.getLast? = some '\n' then [[]] else [] := by
  induction content with
  | nil => simp [lines]
  | cons c rest ih =>
    rw [splitOn_cons_eq_if_modifyHead, ih, lines]
    by_cases hc : c = '\n'
    · subst hc
      rw [if_pos (beq_self_eq_true _), if_pos rfl, cons_append]
      congr 3
      cases rest with
      | nil | cons d rest => simp
    · rw [if_neg (by simpa using hc), if_neg hc]
      cases rest with
      | nil => simp [lines, hc]
      | cons d rest =>
        rw [List.getLast?_cons_cons]
        cases hlines : lines (d :: rest) with
        | nil =>
          rw [lines] at hlines
          split at hlines
          · cases hlines
          · split at hlines <;> cases hlines
        | cons line more => simp

/-- An empty file has one line. -/
theorem readFileLines_eq (content : Text) :
    readFileLines content = if content = [] then [[]] else lines content := by
  simp only [readFileLines, splitOn_eq]
  by_cases hlast : content.getLast? = some '\n'
  · have hne : content ≠ [] := fun heq => by rw [heq] at hlast; cases hlast
    simp [hlast, hne]
  · rcases eq_or_ne content [] with rfl | hne
    · simp [lines]
    · simp [hlast, hne]

theorem lines_append_of_not_mem {p : Bytes} (h : (10 : UInt8) ∉ p) (hne : p ≠ []) (rest : Bytes) :
    ∃ x others, Utf8.lines (p ++ rest) = (p ++ x) :: others ∧
      (Utf8.lines rest = [] ∧ x = [] ∧ others = [] ∨ Utf8.lines rest = x :: others) := by
  induction p with
  | nil => exact absurd rfl hne
  | cons byte p ih =>
    have hbyte : byte ≠ 10 := fun heq => h (heq ▸ mem_cons_self)
    have hrest : (10 : UInt8) ∉ p := fun hmem => h (mem_cons_of_mem _ hmem)
    rw [cons_append, Utf8.lines, if_neg hbyte]
    cases p with
    | nil =>
      rw [nil_append]
      cases hlines : Utf8.lines rest with
      | nil => exact ⟨[], [], rfl, Or.inl ⟨rfl, rfl, rfl⟩⟩
      | cons line others => exact ⟨line, others, rfl, Or.inr rfl⟩
    | cons other p =>
      obtain ⟨x, others, heq, hcases⟩ := ih hrest (cons_ne_nil _ _)
      rw [heq]
      exact ⟨x, others, rfl, hcases⟩

/-- The lines of the bytes are those of the text. -/
theorem lines_encode (content : Text) :
    Utf8.lines (Utf8.encode content) = (lines content).map Utf8.encode := by
  induction content with
  | nil => rfl
  | cons c rest ih =>
    rw [Utf8.encode_cons, lines]
    by_cases hc : c = '\n'
    · subst hc
      rw [if_pos rfl, map_cons, ← ih]
      rfl
    · have hmem : (10 : UInt8) ∉ String.utf8EncodeChar c := fun h =>
        hc (Utf8.newline_mem_utf8EncodeChar h)
      have hne : String.utf8EncodeChar c ≠ [] := by
        rw [← length_pos_iff, String.length_utf8EncodeChar]
        exact Char.utf8Size_pos c
      obtain ⟨x, others, heq, hcases⟩ := lines_append_of_not_mem hmem hne (Utf8.encode rest)
      rw [if_neg hc, heq]
      rw [ih] at hcases
      rcases hcases with ⟨hnil, rfl, rfl⟩ | hcons
      · rw [map_eq_nil_iff.mp hnil, List.append_nil]
        simp [Utf8.encode]
      · obtain ⟨line, more, hlines, rfl, rfl⟩ := map_eq_cons_iff.mp hcons
        rw [hlines, map_cons, Utf8.encode_cons]

theorem lines_ne_nil {bytes : Bytes} (h : bytes ≠ []) : Utf8.lines bytes ≠ [] := by
  obtain ⟨byte, rest, rfl⟩ := exists_cons_of_ne_nil h
  rw [Utf8.lines]
  split
  · exact cons_ne_nil _ _
  · split <;> exact cons_ne_nil _ _

theorem length_lines {bytes : Bytes} (hne : bytes ≠ []) :
    (Utf8.lines bytes).length =
      bytes.count 10 + if bytes.getLast? = some 10 then 0 else 1 := by
  induction bytes with
  | nil => exact absurd rfl hne
  | cons byte rest ih =>
    rcases eq_or_ne rest [] with rfl | hrest
    · by_cases hbyte : byte = 10 <;> simp [Utf8.lines, hbyte]
    · have hlength := ih hrest
      have hlast : (byte :: rest).getLast? = rest.getLast? := by
        cases rest with
        | nil => exact absurd rfl hrest
        | cons d rest => exact List.getLast?_cons_cons
      rw [Utf8.lines, hlast]
      by_cases hbyte : byte = 10
      · subst hbyte
        rw [if_pos rfl, length_cons, hlength, count_cons_self]
        omega
      · rw [if_neg hbyte, count_cons_of_ne hbyte]
        obtain ⟨line, more, hlines⟩ := exists_cons_of_ne_nil (lines_ne_nil hrest)
        rw [hlines] at hlength ⊢
        exact hlength

/-! ### Counting -/

theorem countFrom_eq {newlines : ℕ} {seen : Bool} {lastByte : UInt8} {checked : ℕ}
    {chunks : List Bytes} (hchunks : ∀ chunk ∈ chunks, chunk ≠ [])
    (hnul : (0 : UInt8) ∉ chunks.flatten) (hseen : seen = true ∨ chunks ≠ []) :
    countFrom newlines seen lastByte checked chunks =
      .ok (newlines + chunks.flatten.count 10 +
        if chunks.flatten.getLast?.getD lastByte = 10 then 0 else 1) := by
  induction chunks generalizing newlines seen lastByte checked with
  | nil =>
    obtain rfl : seen = true := hseen.resolve_right fun h => h rfl
    rw [countFrom]
    by_cases hlast : lastByte = 10 <;> simp [hlast]
  | cons chunk rest ih =>
    rw [forall_mem_cons] at hchunks
    rw [flatten_cons, mem_append, not_or] at hnul
    have hstart : (0 : UInt8) ∉ chunk.take (8192 - checked) := fun h =>
      hnul.1 (mem_of_mem_take h)
    obtain ⟨byte, hbyte⟩ : ∃ byte, chunk.getLast? = some byte :=
      ⟨_, List.getLast?_eq_some_getLast hchunks.1⟩
    rw [countFrom]
    simp only [hstart, if_false, hbyte]
    rw [ih hchunks.2 hnul.2 (Or.inl rfl), flatten_cons, count_append, List.getLast?_append,
      hbyte, add_assoc newlines]
    cases rest.flatten.getLast? <;> rfl

/-- The first pass counts the lines. -/
theorem countFileLines_eq {content : Text} {chunks : List Bytes}
    (hchunks : ∀ chunk ∈ chunks, chunk ≠ []) (hcontent : chunks.flatten = Utf8.encode content)
    (hnul : (0 : UInt8) ∉ Utf8.encode content) :
    countFileLines chunks = .ok (readFileLines content).length := by
  rw [readFileLines_eq, countFileLines]
  cases chunks with
  | nil =>
    have hempty : content = [] := by
      cases content with
      | nil => rfl
      | cons c rest =>
        have hpos := Char.utf8Size_pos c
        have hlength := congrArg List.length hcontent
        rw [Utf8.encode_cons, length_append, String.length_utf8EncodeChar] at hlength
        rw [flatten_nil, length_nil] at hlength
        omega
    rw [hempty]
    rfl
  | cons chunk rest =>
    have hne : Utf8.encode content ≠ [] := by
      rw [← hcontent, flatten_cons]
      exact append_ne_nil_of_left_ne_nil (hchunks chunk mem_cons_self) _
    have hcontentne : content ≠ [] := fun heq => hne (by rw [heq]; rfl)
    have hlength := length_lines hne
    rw [lines_encode, length_map] at hlength
    rw [countFrom_eq hchunks (by rwa [hcontent]) (Or.inr (cons_ne_nil _ _)), hcontent,
      if_neg hcontentne, hlength, Nat.zero_add]
    obtain ⟨byte, hbyte⟩ : ∃ byte, (Utf8.encode content).getLast? = some byte :=
      ⟨_, List.getLast?_eq_some_getLast hne⟩
    rw [hbyte, getD_some]
    simp only [some.injEq]

/-! ### Collecting -/

section Collecting

variable {decode : Bytes → Text} {start takeCount : ℤ} {range : Bool} {args : ReadFileArgs}

/-- The second pass on the lines that are left. -/
def collectLines (decode : Bytes → Text) (start takeCount : ℤ) (range : Bool) (args : ReadFileArgs)
    (lineNo : ℤ) (selected : List Text) (outChars : ℕ) : List Bytes → Except Text Text
  | [] => finish start range args selected outChars
  | line :: rest =>
      if line.length > maxSelectedLineBytes ∧ lineNo ≥ start ∧ lineNo < start + takeCount then
        .error (tokenLimitMessage (maxReadTokens + 1) range args)
      else
        let added := addLine decode start takeCount lineNo [line] selected outChars false
        if added.2.2 then finish start range args added.1 added.2.1
        else collectLines decode start takeCount range args (lineNo + 1) added.1 added.2.1 rest

/-- Where a line begins that is not ended yet: its chunks are kept if it is not before the start. -/
structure Begun (start takeCount lineNo : ℤ) (chunks : List Bytes) (line : Bytes) : Prop where
  noNewline : (10 : UInt8) ∉ line
  chunks : lineNo < start ∧ chunks = [] ∨
    start ≤ lineNo ∧ chunks.reverse.flatten = line ∧ ∀ chunk ∈ chunks, chunk ≠ []
  short : line.length ≤ maxSelectedLineBytes ∨ ¬(lineNo ≥ start ∧ lineNo < start + takeCount)

theorem begun_nil (lineNo : ℤ) : Begun start takeCount lineNo [] [] where
  noNewline := not_mem_nil
  chunks := (lt_or_ge lineNo start).imp (fun h => ⟨h, rfl⟩)
    fun h => ⟨h, rfl, fun _ hmem => by cases hmem⟩
  short := Or.inl (Nat.zero_le _)

theorem addLine_congr {lineNo : ℤ} {chunks chunks' : List Bytes}
    (h : lineNo < start ∨ chunks.reverse.flatten = chunks'.reverse.flatten) (selected : List Text)
    (outChars : ℕ) (done : Bool) :
    addLine decode start takeCount lineNo chunks selected outChars done =
      addLine decode start takeCount lineNo chunks' selected outChars done := by
  rcases h with h | h
  · rw [addLine, addLine, if_pos h, if_pos h]
  · rw [addLine, addLine, h]

theorem sum_map_length (chunks : List Bytes) :
    (chunks.map List.length).sum = chunks.reverse.flatten.length := by
  rw [length_flatten, map_reverse, sum_reverse]

/-- **A chunk is consumed as the lines that it has.** -/
theorem consume_eq {bytes line : Bytes} {lineNo : ℤ} {chunks : List Bytes} {selected : List Text}
    {outChars : ℕ} (h : Begun start takeCount lineNo chunks line) :
    match consume decode start takeCount range args bytes lineNo chunks selected outChars with
    | .done result => ∀ more,
        collectLines decode start takeCount range args lineNo selected outChars
          (Utf8.lines (line ++ (bytes ++ more))) = result
    | .more lineNo' chunks' selected' outChars' => ∃ line', Begun start takeCount lineNo' chunks' line' ∧
        ∀ more, collectLines decode start takeCount range args lineNo selected outChars
            (Utf8.lines (line ++ (bytes ++ more))) =
          collectLines decode start takeCount range args lineNo' selected' outChars'
            (Utf8.lines (line' ++ more)) := by
  induction hlength : bytes.length using Nat.strong_induction_on
    generalizing bytes line lineNo chunks selected outChars with
  | _ length ih =>
    subst hlength
    rw [consume]
    by_cases hempty : bytes.isEmpty = true
    · rw [dif_pos hempty, List.isEmpty_iff.mp hempty]
      exact ⟨line, h, fun more => rfl⟩
    rw [dif_neg hempty]
    have hsplit := takeWhile_append_dropWhile (p := (· != 10)) (l := bytes)
    have hbefore : (10 : UInt8) ∉ bytes.takeWhile (· != 10) := fun hmem => by
      simpa using mem_takeWhile_imp hmem
    have hhead : ∀ byte ∈ (bytes.dropWhile (· != 10)).head?, byte = 10 := by
      intro byte hbyte
      have hnot := List.head?_dropWhile_not (· != 10) bytes
      rw [mem_def.mp hbyte] at hnot
      simpa using hnot
    dsimp only
    generalize bytes.takeWhile (· != 10) = before at *
    generalize bytes.dropWhile (· != 10) = after at *
    generalize hchunksEq : (if lineNo < start then [] else
      if before.isEmpty then chunks else before :: chunks) = chunks'
    have hline : (10 : UInt8) ∉ line ++ before := by
      rw [mem_append, not_or]
      exact ⟨h.noNewline, hbefore⟩
    have hchunks : lineNo < start ∧ chunks' = [] ∨ start ≤ lineNo ∧
        chunks'.reverse.flatten = line ++ before ∧ ∀ chunk ∈ chunks', chunk ≠ [] := by
      rcases h.chunks with ⟨hlt, -⟩ | ⟨hle, hflat, hne⟩
      · rw [if_pos hlt] at hchunksEq
        exact Or.inl ⟨hlt, hchunksEq.symm⟩
      · rw [if_neg (not_lt.mpr hle)] at hchunksEq
        refine Or.inr ⟨hle, ?_⟩
        cases before with
        | nil =>
          obtain rfl : chunks = chunks' := hchunksEq
          exact ⟨by rw [hflat, List.append_nil], hne⟩
        | cons byte before =>
          obtain rfl : (byte :: before) :: chunks = chunks' := hchunksEq
          rw [reverse_cons, flatten_append, hflat, flatten_singleton,
            forall_mem_cons]
          exact ⟨rfl, cons_ne_nil _ _, hne⟩
    by_cases hlong : (chunks'.map List.length).sum > maxSelectedLineBytes ∧ lineNo ≥ start ∧
        lineNo < start + takeCount
    · rw [if_pos hlong]
      -- the line is too long however it goes on
      intro more
      obtain ⟨hbytes, hle, hlt⟩ := hlong
      obtain ⟨hbefore', -⟩ | ⟨-, hflat, -⟩ := hchunks
      · exact absurd hle (not_le.mpr hbefore')
      rw [sum_map_length, hflat] at hbytes
      have hne : line ++ before ≠ [] := length_pos_iff.mp (by omega)
      obtain ⟨x, others, hlines, -⟩ := lines_append_of_not_mem hline hne (after ++ more)
      rw [← hsplit, append_assoc, ← append_assoc, hlines, collectLines, if_pos]
      rw [length_append]
      exact ⟨by omega, hle, hlt⟩
    rw [if_neg hlong]
    have hbegun : Begun start takeCount lineNo chunks' (line ++ before) := by
      refine ⟨hline, hchunks, or_iff_not_imp_right.mpr fun hin => ?_⟩
      rcases hchunks with ⟨hlt, -⟩ | ⟨-, hflat, -⟩
      · exact absurd (fun hin => not_le.mpr hlt hin.1) hin
      · rw [sum_map_length, hflat] at hlong
        by_contra hbytes
        exact hlong ⟨by omega, (not_not.mp hin).1, (not_not.mp hin).2⟩
    cases after with
    | nil =>
      rw [if_pos isEmpty_nil]
      refine ⟨line ++ before, hbegun, fun more => ?_⟩
      rw [← hsplit, List.append_nil, append_assoc]
    | cons byte tail =>
      -- the line is ended here
      obtain rfl := hhead byte rfl
      have hshorter : tail.length < bytes.length := by
        rw [← hsplit, length_append, length_cons]
        omega
      have hlines : ∀ more, Utf8.lines (line ++ (bytes ++ more)) =
          (line ++ before) :: Utf8.lines (tail ++ more) := by
        intro more
        rw [← hsplit, append_assoc, ← append_assoc, cons_append,
          Utf8.lines_append hline]
      have hadd : addLine decode start takeCount lineNo chunks' selected outChars false =
          addLine decode start takeCount lineNo [line ++ before] selected outChars false := by
        refine addLine_congr (hchunks.imp (fun h => h.1) fun h => ?_) _ _ _
        rw [h.2.1, reverse_singleton, flatten_singleton]
      have hfits : ¬((line ++ before).length > maxSelectedLineBytes ∧ lineNo ≥ start ∧
          lineNo < start + takeCount) := by
        rintro ⟨hbytes, hin⟩
        rcases hbegun.short with hle | hout
        · omega
        · exact hout hin
      rw [if_neg (by simp), hadd]
      simp only [hlines, collectLines, if_neg hfits, drop_succ_cons, drop_zero]
      generalize addLine decode start takeCount lineNo [line ++ before] selected outChars false =
        added
      by_cases hdone : added.2.2 = true
      · rw [if_pos hdone]
        intro more
        rw [if_pos hdone]
      · rw [if_neg hdone]
        have hrest := @ih _ hshorter tail [] (lineNo + 1) [] added.1 added.2.1 (begun_nil _) rfl
        simp only [if_neg hdone]
        exact hrest

theorem begun_finishLine {lineNo : ℤ} {chunks : List Bytes} {line : Bytes}
    (h : Begun start takeCount lineNo chunks line) (selected : List Text) (outChars : ℕ) :
    finishLine decode start takeCount range args lineNo chunks selected outChars =
      collectLines decode start takeCount range args lineNo selected outChars (Utf8.lines line) := by
  rw [finishLine]
  rcases h.chunks with ⟨hlt, rfl⟩ | ⟨hle, rfl, hne⟩
  · -- the line is before the start
    rw [if_pos isEmpty_nil]
    rcases eq_or_ne line [] with rfl | hline
    · rw [Utf8.lines, collectLines]
    · obtain ⟨x, others, hlines, hcases⟩ := lines_append_of_not_mem h.noNewline hline []
      rw [List.append_nil] at hlines
      obtain ⟨-, rfl, rfl⟩ | hcons := hcases
      · rw [hlines, collectLines, if_neg fun hin => not_le.mpr hlt hin.2.1, addLine, if_pos hlt]
        dsimp only
        rw [if_neg Bool.false_ne_true, collectLines]
      · cases hcons
  · cases chunks with
    | nil =>
      rw [if_pos isEmpty_nil]
      rfl
    | cons chunk chunks =>
      have hline : (chunk :: chunks).reverse.flatten ≠ [] := by
        rw [reverse_cons, flatten_append, flatten_singleton]
        exact append_ne_nil_of_right_ne_nil _ (hne chunk mem_cons_self)
      obtain ⟨x, others, hlines, hcases⟩ := lines_append_of_not_mem h.noNewline hline []
      rw [List.append_nil] at hlines
      obtain ⟨-, rfl, rfl⟩ | hcons := hcases
      · have hadd : addLine decode start takeCount lineNo (chunk :: chunks) selected outChars false =
            addLine decode start takeCount lineNo [(chunk :: chunks).reverse.flatten] selected
              outChars false := by
          refine addLine_congr (Or.inr ?_) _ _ _
          rw [reverse_singleton, flatten_singleton]
        have hfits : ¬((chunk :: chunks).reverse.flatten.length > maxSelectedLineBytes ∧
            lineNo ≥ start ∧ lineNo < start + takeCount) := by
          rintro ⟨hbytes, hin⟩
          rcases h.short with hle | hout
          · omega
          · exact hout hin
        rw [if_neg (by simp), hlines, List.append_nil, collectLines, if_neg hfits, hadd]
        dsimp only
        rw [collectLines, ite_self]
      · cases hcons

/-- **The chunks do not matter.** -/
theorem go_eq {lineNo : ℤ} {currentChunks : List Bytes} {line : Bytes} {selected : List Text}
    {outChars : ℕ} {chunks : List Bytes} (hchunks : ∀ chunk ∈ chunks, chunk ≠ [])
    (h : Begun start takeCount lineNo currentChunks line) :
    go decode start takeCount range args lineNo currentChunks selected outChars chunks =
      collectLines decode start takeCount range args lineNo selected outChars
        (Utf8.lines (line ++ chunks.flatten)) := by
  induction chunks generalizing lineNo currentChunks line selected outChars with
  | nil =>
    rw [go, flatten_nil, List.append_nil]
    exact begun_finishLine h selected outChars
  | cons chunk rest ih =>
    rw [forall_mem_cons] at hchunks
    have hconsumed := @consume_eq decode start takeCount range args chunk line lineNo currentChunks
      selected outChars h
    rw [go, if_neg (by simpa using hchunks.1), flatten_cons]
    cases hcase : consume decode start takeCount range args chunk lineNo currentChunks selected
        outChars with
    | done result =>
      rw [hcase] at hconsumed
      exact (hconsumed rest.flatten).symm
    | more lineNo' chunks' selected' outChars' =>
      rw [hcase] at hconsumed
      obtain ⟨line', hbegun, hlines⟩ := hconsumed
      rw [hlines rest.flatten]
      exact ih hchunks.2 hbegun

theorem collectWindow_eq {content : Text} {chunks : List Bytes}
    (hchunks : ∀ chunk ∈ chunks, chunk ≠ []) (hcontent : chunks.flatten = Utf8.encode content) :
    collectWindow decode start takeCount range args chunks =
      collectLines decode start takeCount range args 1 [] 0 ((lines content).map Utf8.encode) := by
  rw [collectWindow, go_eq hchunks (begun_nil 1), hcontent, nil_append, lines_encode]

/-! ### What is returned -/

/-- The lines before the start are skipped. -/
theorem collectLines_skip {lineNo : ℤ} (h : lineNo ≤ start) (ls : List Bytes) :
    collectLines decode start takeCount range args lineNo [] 0 ls =
      collectLines decode start takeCount range args start [] 0 (ls.drop (start - lineNo).toNat) := by
  induction ls generalizing lineNo with
  | nil =>
    rw [drop_nil, collectLines, collectLines]
  | cons line rest ih =>
    rcases h.eq_or_lt with rfl | hlt
    · rw [sub_self, Int.toNat_zero, drop_zero]
    · have hdrop : (start - lineNo).toNat = (start - (lineNo + 1)).toNat + 1 := by omega
      rw [collectLines, if_neg fun hin => not_le.mpr hlt hin.2.1, addLine, if_pos hlt, hdrop,
        drop_succ_cons, ← ih (by omega : lineNo + 1 ≤ start)]
      rfl

theorem length_intercalate_concat (ls : List Text) (line : Text) :
    (List.intercalate ['\n'] (ls ++ [line])).length =
      (List.intercalate ['\n'] ls).length + (line.length + if ls.isEmpty then 0 else 1) := by
  cases ls with
  | nil => simp [List.intercalate]
  | cons first ls =>
    rw [List.intercalate_concat (cons_ne_nil _ _), length_append, length_append,
      isEmpty_cons, if_neg Bool.false_ne_true, length_singleton]
    omega

/-- More lines are not shorter. -/
theorem length_intercalate_le (ls more : List Text) :
    (List.intercalate ['\n'] ls).length ≤ (List.intercalate ['\n'] (ls ++ more)).length := by
  induction more using List.reverseRecOn with
  | nil => rw [List.append_nil]
  | append_singleton more line ih =>
    rw [← append_assoc, length_intercalate_concat]
    exact ih.trans (Nat.le_add_right _ _)

/-- **The lines that are asked for are returned** if none of them has too many bytes and they have not
too many characters. -/
theorem toOption_collectLines (hdecode : ∀ text, decode (Utf8.encode text) = text) {lineNo : ℤ}
    {selected : List Text} {ls : List Text} (hlineNo : lineNo = start + selected.length)
    (hselected : (selected.length : ℤ) < takeCount) (hsome : selected ≠ [] ∨ ls ≠ [])
    (hchars : (List.intercalate ['\n'] selected.reverse).length / 4 ≤ maxReadTokens) :
    (collectLines decode start takeCount range args lineNo selected
        (List.intercalate ['\n'] selected.reverse).length (ls.map Utf8.encode)).toOption =
      if (∀ line ∈ ls.take (takeCount - selected.length).toNat,
            (Utf8.encode line).length ≤ maxSelectedLineBytes) ∧
          (List.intercalate ['\n'] (selected.reverse ++ numberLines start lineNo
            (ls.take (takeCount - selected.length).toNat))).length / 4 ≤ maxReadTokens then
        some (List.intercalate ['\n'] (selected.reverse ++ numberLines start lineNo
          (ls.take (takeCount - selected.length).toNat)))
      else none := by
  induction ls generalizing lineNo selected with
  | nil =>
    have hne : selected.isEmpty = false := by simpa using hsome.resolve_right fun h => h rfl
    simp only [map_nil, collectLines, finish, Nat.not_lt.mpr hchars, if_false, hne,
      take_nil, numberLines, List.append_nil, hchars, and_true, not_mem_nil,
      false_implies, implies_true, if_true, Bool.false_eq_true, false_and]
    rfl
  | cons line rest ih =>
    obtain ⟨count, hcount⟩ : ∃ count : ℕ, (takeCount - selected.length).toNat = count + 1 :=
      ⟨(takeCount - selected.length).toNat - 1, by omega⟩
    have hin : lineNo ≥ start ∧ lineNo < start + takeCount := by omega
    rw [map_cons, collectLines, hcount, take_succ_cons, numberLines]
    simp only [forall_mem_cons]
    by_cases hlong : (Utf8.encode line).length > maxSelectedLineBytes
    · rw [if_pos ⟨hlong, hin⟩, if_neg fun h => absurd h.1.1 (Nat.not_le.mpr hlong)]
      rfl
    rw [if_neg fun h => hlong h.1]
    have hlength := length_intercalate_concat selected.reverse
      (formatSelectedLine start lineNo line)
    have hmore := length_intercalate_le
      (selected.reverse ++ [formatSelectedLine start lineNo line])
      (numberLines start (lineNo + 1) (rest.take count))
    rw [append_assoc, singleton_append] at hmore
    rw [isEmpty_reverse] at hlength
    have hadd : addLine decode start takeCount lineNo [Utf8.encode line] selected
        (List.intercalate ['\n'] selected.reverse).length false =
        if (List.intercalate ['\n'] (formatSelectedLine start lineNo line ::
            selected).reverse).length / 4 > maxReadTokens then
          (selected, (List.intercalate ['\n'] (formatSelectedLine start lineNo line ::
            selected).reverse).length, true)
        else (formatSelectedLine start lineNo line :: selected,
          (List.intercalate ['\n'] (formatSelectedLine start lineNo line :: selected).reverse).length,
          decide ((selected.length : ℤ) + 1 ≥ takeCount)) := by
      rw [addLine, if_neg (not_lt.mpr hin.1), if_neg (not_le.mpr hin.2), reverse_singleton,
        flatten_singleton]
      dsimp only
      rw [hdecode, reverse_cons, hlength]
    rw [hadd]
    by_cases hbudget : (List.intercalate ['\n'] (formatSelectedLine start lineNo line ::
        selected).reverse).length / 4 > maxReadTokens
    · -- there are already too many characters
      rw [if_pos hbudget]
      simp only [finish, hbudget, if_true]
      refine Eq.trans rfl (if_neg ?_).symm
      rintro ⟨-, hle⟩
      rw [reverse_cons] at hbudget
      have hquarter := Nat.div_le_div_right (c := 4) hmore
      omega
    rw [if_neg hbudget]
    by_cases hdone : (selected.length : ℤ) + 1 ≥ takeCount
    · -- this was the last line
      obtain rfl : count = 0 := by omega
      rw [reverse_cons] at hbudget ⊢
      simp only [hdone, decide_true, if_true, finish, hbudget, if_false, isEmpty_cons,
        Bool.false_eq_true, false_and, take_zero, numberLines, not_mem_nil,
        false_implies, implies_true, Nat.not_lt.mp hlong, Nat.not_lt.mp hbudget, and_self]
      rw [reverse_cons]
      rfl
    · have hnext := @ih (lineNo + 1) (formatSelectedLine start lineNo line :: selected)
        (by rw [length_cons]; omega) (by rw [length_cons]; omega)
        (Or.inl (cons_ne_nil _ _)) (Nat.not_lt.mp hbudget)
      have hleft : (takeCount - ((formatSelectedLine start lineNo line :: selected).length : ℤ)).toNat =
          count := by
        rw [length_cons]
        omega
      rw [hleft] at hnext
      simp only [hdone, decide_false, Bool.false_eq_true, if_false]
      rw [hnext, reverse_cons, append_assoc, singleton_append]
      simp only [Nat.not_lt.mp hlong, true_and]

end Collecting

/-! ### The readers agree -/

/-- The lines that are asked for. -/
def requestedLines (content : Text) (args : ReadFileArgs) : List Text :=
  ((readFileLines content).drop
    (resolveReadStartLine (readFileLines content).length args.offset - 1).toNat).take
      (takeCount args).toNat

/-- The text of the lines that are asked for. -/
def requestedText (content : Text) (args : ReadFileArgs) : Text :=
  formatNumbered (resolveReadStartLine (readFileLines content).length args.offset)
    (requestedLines content args)

theorem one_le_resolveReadStartLine (total : ℤ) (offset : Option ℤ) :
    1 ≤ resolveReadStartLine total offset := by
  simp only [resolveReadStartLine]
  split
  · exact le_refl 1
  · split
    · omega
    · exact le_max_left _ _

theorem estimateTokens_le_iff (text : Text) :
    estimateTokens text ≤ maxReadTokens ↔ text.length / 4 ≤ maxReadTokens := by
  rw [estimateTokens, max_le_iff]
  exact and_iff_right (by decide)

theorem toOption_formatReadFile {content : Text} {args : ReadFileArgs}
    (hlimit : args.limit.any (· ≤ 0) = false)
    (hstart : ¬(resolveReadStartLine (readFileLines content).length args.offset >
      ((readFileLines content).length : ℤ) ∧ (readFileLines content).length > 0)) :
    (formatReadFile content args).toOption =
      if estimateTokens (requestedText content args) ≤ maxReadTokens then
        some (requestedText content args)
      else none := by
  rw [formatReadFile, hlimit, if_neg Bool.false_ne_true]
  dsimp only
  rw [if_neg hstart]
  simp only [requestedText, requestedLines]
  split
  · next hmany => exact (if_neg (Nat.not_le.mpr hmany)).symm
  · next hfew => exact (if_pos (Nat.not_lt.mp hfew)).symm

/-- **What the reader with two passes returns.** -/
theorem toOption_streamReadFile {decode : Bytes → Text}
    (hdecode : ∀ text, decode (Utf8.encode text) = text) {content : Text}
    (hnul : (0 : UInt8) ∉ Utf8.encode content) {counted collected : List Bytes}
    (hcounted : ∀ chunk ∈ counted, chunk ≠ []) (hcollected : ∀ chunk ∈ collected, chunk ≠ [])
    (hfirst : counted.flatten = Utf8.encode content)
    (hsecond : collected.flatten = Utf8.encode content) {args : ReadFileArgs}
    (hlimit : args.limit.any (· ≤ 0) = false)
    (hstart : ¬(resolveReadStartLine (readFileLines content).length args.offset >
      ((readFileLines content).length : ℤ) ∧ (readFileLines content).length > 0)) :
    (streamReadFile decode counted collected args).toOption =
      if (∀ line ∈ requestedLines content args, (Utf8.encode line).length ≤ maxSelectedLineBytes) ∧
          estimateTokens (requestedText content args) ≤ maxReadTokens then
        some (requestedText content args)
      else none := by
  have hpos := one_le_resolveReadStartLine (readFileLines content).length args.offset
  have hcount : 0 < takeCount args := by
    rw [takeCount]
    cases hsome : args.limit with
    | none => decide
    | some n =>
      rw [hsome, any_some, decide_eq_false_iff_not] at hlimit
      rw [getD_some, maxReadLines]
      omega
  rw [streamReadFile, hlimit, if_neg Bool.false_ne_true, countFileLines_eq hcounted hfirst hnul]
  dsimp only
  rw [if_neg hstart, collectWindow_eq hcollected hsecond]
  rcases eq_or_ne content [] with rfl | hne
  · -- an empty file has one line
    have hstartone : resolveReadStartLine (readFileLines []).length args.offset = 1 := by
      have hone : ((readFileLines []).length : ℤ) = 1 := by
        rw [readFileLines_eq, if_pos rfl]
        rfl
      omega
    have hlines : requestedLines [] args = [[]] := by
      obtain ⟨count, hcount⟩ : ∃ count : ℕ, (takeCount args).toNat = count + 1 :=
        ⟨(takeCount args).toNat - 1, by omega⟩
      rw [requestedLines, hstartone, readFileLines_eq, if_pos rfl, hcount, sub_self, Int.toNat_zero,
        drop_zero, take_succ_cons, take_nil]
    have htext : requestedText [] args = ['1', '→'] := by
      rw [requestedText, hlines, hstartone]
      decide
    have hfinish : finish 1 (rangeSpecified args) args [] 0 = .ok ['1', '→'] := by
      rw [finish, if_neg (by decide), if_pos ⟨rfl, rfl, rfl⟩]
      decide
    rw [htext, hlines, hstartone, if_pos ⟨by decide, by decide⟩, lines, map_nil, collectLines,
      hfinish]
    rfl
  · have hall : readFileLines content = lines content := by rw [readFileLines_eq, if_neg hne]
    have hwindow : (lines content).drop
        (resolveReadStartLine (readFileLines content).length args.offset - 1).toNat ≠ [] := by
      rw [← hall, Ne, drop_eq_nil_iff]
      have hsome : 0 < (readFileLines content).length := by
        rw [hall, ← length_map Utf8.encode, ← lines_encode, length_pos_iff]
        refine lines_ne_nil fun hnone => hne ?_
        exact (hdecode content).symm.trans ((congrArg decode hnone).trans (hdecode []))
      omega
    rw [collectLines_skip hpos, ← map_drop]
    have hcollect := @toOption_collectLines decode
      (resolveReadStartLine (readFileLines content).length args.offset) (takeCount args)
      (rangeSpecified args) args hdecode _ [] _ (add_zero _).symm hcount (Or.inr hwindow)
      (by decide)
    simp only [reverse_nil, intercalate_nil, length_nil, Nat.cast_zero, sub_zero,
      nil_append] at hcollect
    rw [hcollect]
    simp only [requestedText, requestedLines, formatNumbered, hall, estimateTokens_le_iff]

/-- **The readers agree exactly if no line that is asked for has too many bytes** or the text that is
asked for has too many characters anyway. -/
theorem streamReadFile_agrees_iff {decode : Bytes → Text}
    (hdecode : ∀ text, decode (Utf8.encode text) = text) {content : Text}
    (hnul : (0 : UInt8) ∉ Utf8.encode content) {counted collected : List Bytes}
    (hcounted : ∀ chunk ∈ counted, chunk ≠ []) (hcollected : ∀ chunk ∈ collected, chunk ≠ [])
    (hfirst : counted.flatten = Utf8.encode content)
    (hsecond : collected.flatten = Utf8.encode content) (args : ReadFileArgs) :
    (streamReadFile decode counted collected args).toOption =
        (formatReadFile content args).toOption ↔
      (∀ line ∈ requestedLines content args, (Utf8.encode line).length ≤ maxSelectedLineBytes) ∨
        estimateTokens (requestedText content args) > maxReadTokens := by
  cases hlimit : args.limit.any (· ≤ 0) with
  | true =>
    -- nothing is asked for
    have hnone : requestedLines content args = [] := by
      have hcount : (takeCount args).toNat = 0 := by
        cases hsome : args.limit with
        | none =>
          rw [hsome] at hlimit
          cases hlimit
        | some n =>
          rw [hsome, any_some, decide_eq_true_iff] at hlimit
          rw [takeCount, hsome, getD_some]
          omega
      rw [requestedLines, hcount, take_zero]
    refine iff_of_true ?_ (Or.inl fun line hline => ?_)
    · rw [streamReadFile, formatReadFile, hlimit, if_pos rfl, if_pos rfl]
    · rw [hnone] at hline
      cases hline
  | false =>
    by_cases hstart : resolveReadStartLine (readFileLines content).length args.offset >
        ((readFileLines content).length : ℤ) ∧ (readFileLines content).length > 0
    · have hnone : requestedLines content args = [] := by
        rw [requestedLines, drop_eq_nil_of_le (by omega), take_nil]
      refine iff_of_true ?_ (Or.inl fun line hline => ?_)
      · rw [streamReadFile, formatReadFile, hlimit, if_neg Bool.false_ne_true,
          if_neg Bool.false_ne_true, countFileLines_eq hcounted hfirst hnul]
        dsimp only
        rw [if_pos hstart, if_pos hstart]
      · rw [hnone] at hline
        cases hline
    · rw [toOption_streamReadFile hdecode hnul hcounted hcollected hfirst hsecond hlimit hstart,
        toOption_formatReadFile hlimit hstart]
      by_cases htokens : estimateTokens (requestedText content args) ≤ maxReadTokens
      · rw [if_pos htokens, or_iff_left (Nat.not_lt.mpr htokens)]
        constructor
        · intro heq
          by_contra hlong
          rw [if_neg fun h => hlong h.1] at heq
          cases heq
        · intro hshort
          rw [if_pos ⟨hshort, htokens⟩]
      · rw [if_neg htokens, if_neg fun h => htokens h.2]
        exact iff_of_true rfl (Or.inr (Nat.not_le.mp htokens))

/-! ### A line of characters that have four bytes each -/

/-- Nothing is read of invalid bytes. -/
def decodeStrict (bytes : Bytes) : Text := (Utf8.decode bytes).getD []

theorem decodeStrict_encode (text : Text) : decodeStrict (Utf8.encode text) = text := by
  rw [decodeStrict, Utf8.decode_encode, getD_some]

@[irreducible] def fourByteLine : Text := List.replicate 50001 (Char.ofNat 0x1F600)

theorem encode_fourByteLine : Utf8.encode fourByteLine =
    (List.replicate 50001 ([0xF0, 0x9F, 0x98, 0x80] : Bytes)).flatten := by
  rw [Utf8.encode, fourByteLine, flatMap_replicate]
  rfl

theorem nul_not_mem_fourByteLine : (0 : UInt8) ∉ Utf8.encode fourByteLine := by
  rw [encode_fourByteLine]
  intro hmem
  obtain ⟨bytes, hbytes, hzero⟩ := mem_flatten.mp hmem
  rw [eq_of_mem_replicate hbytes] at hzero
  revert hzero
  decide

theorem length_encode_fourByteLine : (Utf8.encode fourByteLine).length = 200004 := by
  rw [encode_fourByteLine, length_flatten, map_replicate, sum_replicate_nat]
  rfl

theorem readFileLines_fourByteLine : readFileLines fourByteLine = [fourByteLine] := by
  have hne : fourByteLine ≠ [] := by
    rw [← length_pos_iff, fourByteLine, length_replicate]
    decide
  rw [readFileLines_eq, if_neg hne, lines_single _ hne]
  intro hmem
  rw [fourByteLine] at hmem
  have hchar : '\n' = Char.ofNat 0x1F600 := eq_of_mem_replicate hmem
  revert hchar
  decide

theorem requestedLines_fourByteLine : requestedLines fourByteLine ⟨none, none⟩ = [fourByteLine] := by
  rw [requestedLines, readFileLines_fourByteLine]
  rfl

theorem estimateTokens_fourByteLine :
    estimateTokens (requestedText fourByteLine ⟨none, none⟩) = 12500 := by
  have hlength : (requestedText fourByteLine ⟨none, none⟩).length = 50003 := by
    rw [requestedText, requestedLines_fourByteLine, readFileLines_fourByteLine]
    have htext : formatNumbered 1 [fourByteLine] = ['1', '→'] ++ fourByteLine := by
      have hone : showInt 1 = ['1'] := by decide
      rw [formatNumbered, numberLines, numberLines, formatSelectedLine, if_pos (Or.inl rfl), hone]
      simp [List.intercalate]
    exact (congrArg List.length htext).trans
      (by rw [length_append, fourByteLine, length_replicate]; rfl)
  rw [estimateTokens, hlength]
  rfl

/-- The plain reader returns the line and the other one does not. -/
theorem four_byte_line_rejected :
    (streamReadFile decodeStrict [Utf8.encode fourByteLine] [Utf8.encode fourByteLine]
        ⟨none, none⟩).toOption = none ∧
      (formatReadFile fourByteLine ⟨none, none⟩).toOption =
        some (requestedText fourByteLine ⟨none, none⟩) := by
  have hchunks : ∀ chunk ∈ [Utf8.encode fourByteLine], chunk ≠ [] := by
    rw [forall_mem_singleton, ← length_pos_iff, length_encode_fourByteLine]
    decide
  have hflat : [Utf8.encode fourByteLine].flatten = Utf8.encode fourByteLine :=
    flatten_singleton
  have hlimit : (none : Option ℤ).any (· ≤ 0) = false := rfl
  have hstart : ¬(resolveReadStartLine (readFileLines fourByteLine).length none >
      ((readFileLines fourByteLine).length : ℤ) ∧ (readFileLines fourByteLine).length > 0) := by
    rw [readFileLines_fourByteLine]
    exact fun h => absurd h.1 (by decide)
  constructor
  · have hread := @toOption_streamReadFile decodeStrict decodeStrict_encode fourByteLine
      nul_not_mem_fourByteLine _ _ hchunks hchunks hflat hflat ⟨none, none⟩ hlimit hstart
    rw [hread, if_neg]
    rw [requestedLines_fourByteLine, forall_mem_singleton, length_encode_fourByteLine]
    exact fun h => absurd h.1 (by decide)
  · have hread := @toOption_formatReadFile fourByteLine ⟨none, none⟩ hlimit hstart
    rw [hread, if_pos]
    rw [estimateTokens_fourByteLine]
    decide

theorem streamReadFile_agrees_on_letter :
    (streamReadFile decodeStrict [[97], [10]] [[97, 10]] ⟨some (-1), none⟩).toOption =
      (formatReadFile ['a', '\n'] ⟨some (-1), none⟩).toOption := by
  refine (@streamReadFile_agrees_iff decodeStrict decodeStrict_encode ['a', '\n'] (by decide)
    [[97], [10]] [[97, 10]] (by decide) (by decide) rfl rfl ⟨some (-1), none⟩).mpr (Or.inl ?_)
  intro line hline
  have hmem := mem_of_mem_drop (mem_of_mem_take hline)
  rw [readFileLines_eq, if_neg (by decide)] at hmem
  have hlines : ∀ line ∈ lines ['a', '\n'], (Utf8.encode line).length ≤ maxSelectedLineBytes := by
    decide
  exact hlines line hmem

end ReadFile
end HaskellAgent
