import HaskellAgent.Dialect.PatchParser
import HaskellAgent.Sessions.Framing

/-!
# The output of a search

The output of the search program is read in chunks.  Whole lines are kept up to a number of lines, a
number of bytes and a length of one line; a line that is not ended yet is carried to the next chunk.
What is kept is printed on a card, with a footer where something is missing.

The handle is the list of the chunks that it gives.  The chunks behind a limit are read and forgotten,
and the captures that are printed while the search is going on are left out.
-/

open List

namespace HaskellAgent
namespace Grep

open Framing Patch

/-! ### Reading -/

inductive GrepTruncation
  | complete
  | lineTruncated
  | longLineTruncated
  | byteTruncated
  deriving DecidableEq

structure GrepCapture where
  captureBytes : Bytes
  captureTruncation : GrepTruncation
  deriving DecidableEq

def grepOutputByteLimit : ℕ := 16 * 1024 * 1024

def grepLineByteLimit : ℕ := 256 * 1024

def finish (reversed : List Bytes) (truncation : GrepTruncation) : GrepCapture :=
  ⟨reversed.reverse.flatten, truncation⟩

/-- What has been consumed: everything that is kept, or a line that is not ended yet behind the lines
that are kept. -/
inductive Consumed
  | done (capture : GrepCapture)
  | more (pending : Bytes) (reversed : List Bytes) (totalBytes totalLines : ℕ)

def remainingBytes (byteLimit : ℤ) (totalBytes : ℕ) : ℕ := (byteLimit - totalBytes).toNat

def retainedLineLimit (byteLimit : ℤ) (totalBytes : ℕ) : ℕ :=
  min grepLineByteLimit (remainingBytes byteLimit totalBytes)

def retainedLineTruncation (byteLimit : ℤ) (totalBytes : ℕ) : GrepTruncation :=
  if remainingBytes byteLimit totalBytes ≤ grepLineByteLimit then .byteTruncated
  else .longLineTruncated

/-- The rest of the handle is drained. -/
def truncateAndDrain (kept : Bytes) (reversed : List Bytes) (truncation : GrepTruncation) :
    GrepCapture :=
  finish (if kept.isEmpty then reversed else kept :: reversed) truncation

variable {bytes : Bytes}

theorem length_drop_lt {newlineIndex : ℕ} (h : bytes.findIdx? (· == 10) = some newlineIndex) :
    (bytes.drop (newlineIndex + 1)).length < bytes.length := by
  obtain ⟨hlt, -⟩ := List.findIdx?_eq_some_iff_getElem.mp h
  rw [length_drop]
  omega

def consume (lineLimit byteLimit : ℤ) (bytes : Bytes) (reversed : List Bytes)
    (totalBytes totalLines : ℕ) : Consumed :=
  match h : bytes.findIdx? (· == 10) with
  | none =>
      if bytes.length > retainedLineLimit byteLimit totalBytes then
        .done (truncateAndDrain (bytes.take (retainedLineLimit byteLimit totalBytes)) reversed
          (retainedLineTruncation byteLimit totalBytes))
      else .more bytes reversed totalBytes totalLines
  | some newlineIndex =>
      let line := bytes.take (newlineIndex + 1)
      if line.length > retainedLineLimit byteLimit totalBytes then
        .done (truncateAndDrain (line.take (retainedLineLimit byteLimit totalBytes)) reversed
          (retainedLineTruncation byteLimit totalBytes))
      else
        let nextReversed := if line.isEmpty then reversed else line :: reversed
        if (totalLines : ℤ) + 1 ≥ lineLimit then
          .done (truncateAndDrain [] nextReversed .lineTruncated)
        else
          consume lineLimit byteLimit (bytes.drop (newlineIndex + 1)) nextReversed
            (totalBytes + line.length) (totalLines + 1)
termination_by bytes.length
decreasing_by exact length_drop_lt h

def finishPending (byteLimit : ℤ) (pending : Bytes) (reversed : List Bytes) (totalBytes : ℕ) :
    GrepCapture :=
  if pending.isEmpty then finish reversed .complete
  else
    let remaining := remainingBytes byteLimit totalBytes
    let keep := pending.take (min grepLineByteLimit remaining)
    let truncation :=
      if pending.length > remaining then GrepTruncation.byteTruncated
      else if pending.length > grepLineByteLimit then .longLineTruncated
      else .complete
    finish (if keep.isEmpty then reversed else keep :: reversed) truncation

/-- An empty chunk is the end of the output. -/
def go (lineLimit byteLimit : ℤ) (pending : Bytes) (reversed : List Bytes)
    (totalBytes totalLines : ℕ) : List Bytes → GrepCapture
  | [] => finishPending byteLimit pending reversed totalBytes
  | chunk :: rest =>
      if chunk.isEmpty then finishPending byteLimit pending reversed totalBytes
      else
        match consume lineLimit byteLimit (if pending.isEmpty then chunk else pending ++ chunk)
          reversed totalBytes totalLines with
        | .done capture => capture
        | .more pending reversed totalBytes totalLines =>
            go lineLimit byteLimit pending reversed totalBytes totalLines rest

def readBoundedStdout (lineLimit byteLimit : ℤ) (chunks : List Bytes) : GrepCapture :=
  go lineLimit byteLimit [] [] 0 0 chunks

/-! ### The card -/

def addTrailingPathSeparator (path : Text) : Text :=
  if path.getLast? = some '/' then path else path ++ ['/']

def makeWorkspaceRelative (cwd line : Text) : Text :=
  ((addTrailingPathSeparator cwd).isPrefixOf? line <|>
    (addTrailingPathSeparator ['.']).isPrefixOf? line).getD line

def grepFooter (limit : ℤ) (count : ℕ) (truncation : GrepTruncation) : Text :=
  if truncation = .lineTruncated ∨ (count : ℤ) > limit then
    "\n[at least ".toList ++ (toString limit).toList ++ " lines; output truncated]".toList
  else if truncation = .longLineTruncated then
    "\n[output truncated: a matching line exceeded ".toList ++ (toString grepLineByteLimit).toList ++
      " bytes]".toList
  else if truncation = .byteTruncated then
    "\n[output truncated after ".toList ++ (toString grepOutputByteLimit).toList ++
      " bytes]".toList
  else []

def formatGrepCard (cwd raw : Text) (limit : ℤ) (truncation : GrepTruncation) : Text :=
  if (Patch.strip raw).isEmpty then "No matches found.".toList
  else
    let ls := (lines raw).map (makeWorkspaceRelative cwd)
    let kept := ls.take limit.toNat
    "<workspace_result>\n".toList ++ unlinesText kept ++ grepFooter limit ls.length truncation ++
      "</workspace_result>".toList

/-! ### Chunk boundaries -/

theorem captureBytes_truncateAndDrain (kept : Bytes) (reversed : List Bytes)
    (truncation : GrepTruncation) :
    truncateAndDrain kept reversed truncation = ⟨reversed.reverse.flatten ++ kept, truncation⟩ := by
  rw [truncateAndDrain, finish]
  cases kept with
  | nil => rw [List.append_nil]; rfl
  | cons byte kept => simp

/-- The first newline is where it was when more is read. -/
theorem findIdx?_append_of_some {a : Bytes} {i : ℕ} (h : a.findIdx? (· == 10) = some i)
    (b : Bytes) : (a ++ b).findIdx? (· == 10) = some i := by
  rw [List.findIdx?_append, h]
  rfl

variable {lineLimit byteLimit : ℤ} {reversed : List Bytes} {totalBytes totalLines : ℕ}

theorem consume_of_none (h : bytes.findIdx? (· == 10) = none) :
    consume lineLimit byteLimit bytes reversed totalBytes totalLines =
      if bytes.length > retainedLineLimit byteLimit totalBytes then
        .done ⟨reversed.reverse.flatten ++ bytes.take (retainedLineLimit byteLimit totalBytes),
          retainedLineTruncation byteLimit totalBytes⟩
      else .more bytes reversed totalBytes totalLines := by
  rw [consume]
  split
  · rw [captureBytes_truncateAndDrain]
  · next i hi =>
    rw [h] at hi
    cases hi

theorem consume_of_some {i : ℕ} (h : bytes.findIdx? (· == 10) = some i) :
    consume lineLimit byteLimit bytes reversed totalBytes totalLines =
      if i + 1 > retainedLineLimit byteLimit totalBytes then
        .done ⟨reversed.reverse.flatten ++ bytes.take (retainedLineLimit byteLimit totalBytes),
          retainedLineTruncation byteLimit totalBytes⟩
      else if (totalLines : ℤ) + 1 ≥ lineLimit then
        .done ⟨reversed.reverse.flatten ++ bytes.take (i + 1), .lineTruncated⟩
      else consume lineLimit byteLimit (bytes.drop (i + 1)) (bytes.take (i + 1) :: reversed)
        (totalBytes + (i + 1)) (totalLines + 1) := by
  obtain ⟨hlt, -⟩ := List.findIdx?_eq_some_iff_getElem.mp h
  have hlength : (bytes.take (i + 1)).length = i + 1 := length_take_of_le hlt
  have hempty : (bytes.take (i + 1)).isEmpty = false := by
    rw [isEmpty_eq_false_iff, ← length_pos_iff, hlength]
    exact Nat.succ_pos i
  rw [consume]
  split
  · next hnone =>
    rw [h] at hnone
    cases hnone
  · next j hj =>
    obtain rfl : i = j := Option.some.inj (h.symm.trans hj)
    simp only [hlength, hempty, Bool.false_eq_true, if_false, captureBytes_truncateAndDrain,
      List.append_nil, reverse_cons, flatten_append, flatten_cons, flatten_nil]
    split
    · next hlong => rw [take_take, min_eq_left (Nat.le_of_lt hlong)]
    · rfl

/-- The line that is too long is cut before its newline, or has none yet. -/
theorem consume_of_long (hlong : bytes.length > retainedLineLimit byteLimit totalBytes)
    (h : ∀ i, bytes.findIdx? (· == 10) = some i → i + 1 > retainedLineLimit byteLimit totalBytes) :
    consume lineLimit byteLimit bytes reversed totalBytes totalLines =
      .done ⟨reversed.reverse.flatten ++ bytes.take (retainedLineLimit byteLimit totalBytes),
        retainedLineTruncation byteLimit totalBytes⟩ := by
  cases hfind : bytes.findIdx? (· == 10) with
  | none => rw [consume_of_none hfind, if_pos hlong]
  | some i => rw [consume_of_some hfind, if_pos (h i hfind)]

/-- **A chunk boundary changes nothing**: what comes behind it is consumed as if it had been there. -/
theorem consume_append (lineLimit byteLimit : ℤ) (a b : Bytes) (reversed : List Bytes)
    (totalBytes totalLines : ℕ) :
    consume lineLimit byteLimit (a ++ b) reversed totalBytes totalLines =
      match consume lineLimit byteLimit a reversed totalBytes totalLines with
      | .done capture => .done capture
      | .more pending reversed totalBytes totalLines =>
          consume lineLimit byteLimit (pending ++ b) reversed totalBytes totalLines := by
  induction hlength : a.length using Nat.strong_induction_on
    generalizing a reversed totalBytes totalLines with
  | _ length ih =>
    subst hlength
    cases hfind : a.findIdx? (· == 10) with
    | none =>
      rw [consume_of_none hfind]
      by_cases hlong : a.length > retainedLineLimit byteLimit totalBytes
      · -- the newline is behind what is kept, if there is one
        have hbehind : ∀ i, (a ++ b).findIdx? (· == 10) = some i →
            i + 1 > retainedLineLimit byteLimit totalBytes := by
          intro i hi
          rw [List.findIdx?_append, hfind, Option.none_or] at hi
          obtain ⟨j, -, rfl⟩ := Option.map_eq_some_iff.mp hi
          omega
        have hlonger : (a ++ b).length > retainedLineLimit byteLimit totalBytes := by
          rw [length_append]
          omega
        rw [if_pos hlong, consume_of_long hlonger hbehind,
          take_append_of_le_length (Nat.le_of_lt hlong)]
      · rw [if_neg hlong]
    | some i =>
      have hlt := length_drop_lt hfind
      obtain ⟨hi, -⟩ := List.findIdx?_eq_some_iff_getElem.mp hfind
      rw [consume_of_some hfind, consume_of_some (findIdx?_append_of_some hfind b)]
      by_cases hlong : i + 1 > retainedLineLimit byteLimit totalBytes
      · rw [if_pos hlong, if_pos hlong, take_append_of_le_length (by omega)]
      · rw [if_neg hlong, if_neg hlong, take_append_of_le_length (by omega),
          drop_append_of_le_length (by omega)]
        by_cases hlimit : (totalLines : ℤ) + 1 ≥ lineLimit
        · rw [if_pos hlimit, if_pos hlimit]
        · rw [if_neg hlimit, if_neg hlimit]
          exact ih _ hlt _ _ _ _ rfl

/-- What is waiting is one line that is not ended and not too long. -/
theorem consume_more {pending : Bytes} {reversed' : List Bytes} {totalBytes' totalLines' : ℕ}
    (h : consume lineLimit byteLimit bytes reversed totalBytes totalLines =
      .more pending reversed' totalBytes' totalLines') :
    pending.findIdx? (· == 10) = none ∧ pending.length ≤ retainedLineLimit byteLimit totalBytes' ∧
      reversed'.reverse.flatten ++ pending = reversed.reverse.flatten ++ bytes := by
  induction hlength : bytes.length using Nat.strong_induction_on
    generalizing bytes reversed totalBytes totalLines with
  | _ length ih =>
    subst hlength
    cases hfind : bytes.findIdx? (· == 10) with
    | none =>
      rw [consume_of_none hfind] at h
      split at h
      · cases h
      · next hlong =>
        cases h
        exact ⟨hfind, Nat.le_of_not_lt hlong, rfl⟩
    | some i =>
      rw [consume_of_some hfind] at h
      split at h
      · cases h
      · split at h
        · cases h
        · obtain ⟨hnone, hle, heq⟩ := ih _ (length_drop_lt hfind) h rfl
          refine ⟨hnone, hle, heq.trans ?_⟩
          rw [reverse_cons, flatten_append, flatten_singleton, append_assoc,
            take_append_drop]

/-- **The capture depends on the stream only.** -/
theorem go_eq (lineLimit byteLimit : ℤ) {pending : Bytes} {reversed : List Bytes}
    {totalBytes totalLines : ℕ} {chunks : List Bytes} (hchunks : ∀ chunk ∈ chunks, chunk ≠ [])
    (hpending : pending.findIdx? (· == 10) = none)
    (hle : pending.length ≤ retainedLineLimit byteLimit totalBytes) :
    go lineLimit byteLimit pending reversed totalBytes totalLines chunks =
      match consume lineLimit byteLimit (pending ++ chunks.flatten) reversed totalBytes totalLines with
      | .done capture => capture
      | .more pending reversed totalBytes _ => finishPending byteLimit pending reversed totalBytes := by
  induction chunks generalizing pending reversed totalBytes totalLines with
  | nil =>
    rw [flatten_nil, List.append_nil, consume_of_none hpending, if_neg (Nat.not_lt.mpr hle), go]
  | cons chunk rest ih =>
    rw [forall_mem_cons] at hchunks
    have hjoined : (if pending.isEmpty then chunk else pending ++ chunk) = pending ++ chunk := by
      cases pending <;> rfl
    rw [go, if_neg (by simpa using hchunks.1), hjoined, flatten_cons, ← append_assoc,
      consume_append lineLimit byteLimit (pending ++ chunk) rest.flatten]
    cases hconsumed : consume lineLimit byteLimit (pending ++ chunk) reversed totalBytes totalLines with
    | done capture => rfl
    | more pending' reversed' totalBytes' totalLines' =>
      obtain ⟨hnone, hshort, -⟩ := consume_more hconsumed
      exact ih hchunks.2 hnone hshort

/-! ### What is kept -/

/-- Something is missing behind what is kept. -/
structure Truncated (lineLimit : ℤ) (stream : Bytes) (capture : GrepCapture) : Prop where
  notComplete : capture.captureTruncation ≠ .complete
  starts : capture.captureBytes <+: stream
  shorter : capture.captureTruncation ≠ .lineTruncated →
    capture.captureBytes.length < stream.length
  lines : capture.captureTruncation = .lineTruncated →
    lineLimit ≤ capture.captureBytes.count 10

theorem retainedLineTruncation_ne (byteLimit : ℤ) (totalBytes : ℕ) :
    retainedLineTruncation byteLimit totalBytes ≠ .complete ∧
      retainedLineTruncation byteLimit totalBytes ≠ .lineTruncated := by
  rw [retainedLineTruncation]
  split <;> decide

/-- **What is kept is where the stream begins**, and what is missing is known. -/
theorem consume_done {capture : GrepCapture}
    (hlines : totalLines ≤ reversed.reverse.flatten.count 10)
    (h : consume lineLimit byteLimit bytes reversed totalBytes totalLines = .done capture) :
    Truncated lineLimit (reversed.reverse.flatten ++ bytes) capture := by
  induction hlength : bytes.length using Nat.strong_induction_on
    generalizing bytes reversed totalBytes totalLines with
  | _ length ih =>
    subst hlength
    have htruncation := retainedLineTruncation_ne byteLimit totalBytes
    -- a line that is cut is longer than what is kept of it
    have hcut : bytes.length > retainedLineLimit byteLimit totalBytes →
        Truncated lineLimit (reversed.reverse.flatten ++ bytes)
          ⟨reversed.reverse.flatten ++ bytes.take (retainedLineLimit byteLimit totalBytes),
            retainedLineTruncation byteLimit totalBytes⟩ := by
      intro hlong
      refine ⟨htruncation.1, (prefix_append_right_inj _).mpr (List.take_prefix _ _),
        fun _ => ?_, fun heq => absurd heq htruncation.2⟩
      rw [length_append, length_append, length_take_of_le (Nat.le_of_lt hlong)]
      omega
    cases hfind : bytes.findIdx? (· == 10) with
    | none =>
      rw [consume_of_none hfind] at h
      split at h
      · next hlong =>
        cases h
        exact hcut hlong
      · cases h
    | some i =>
      obtain ⟨hi, hbyte, -⟩ := List.findIdx?_eq_some_iff_getElem.mp hfind
      -- the line has its newline
      have hcount : totalLines + 1 ≤ (reversed.reverse.flatten ++ bytes.take (i + 1)).count 10 := by
        have hmem : (10 : UInt8) ∈ bytes.take (i + 1) := by
          rw [← eq_of_beq hbyte]
          exact mem_take_iff_getElem.mpr ⟨i, by omega, rfl⟩
        have hpos := count_pos_iff.mpr hmem
        rw [count_append]
        omega
      rw [consume_of_some hfind] at h
      split at h
      · cases h
        exact hcut (by omega)
      · split at h
        · next hlimit =>
          cases h
          refine ⟨fun heq => (by cases heq), (prefix_append_right_inj _).mpr (List.take_prefix _ _),
            fun hne => absurd rfl hne, fun _ => ?_⟩
          dsimp only
          omega
        · have hflat : (bytes.take (i + 1) :: reversed).reverse.flatten =
              reversed.reverse.flatten ++ bytes.take (i + 1) := by
            rw [reverse_cons, flatten_append, flatten_singleton]
          have hkept := ih _ (length_drop_lt hfind) (by rw [hflat]; exact hcount) h rfl
          rwa [hflat, append_assoc, take_append_drop] at hkept

theorem finishPending_of_le {pending : Bytes}
    (h : pending.length ≤ retainedLineLimit byteLimit totalBytes) :
    finishPending byteLimit pending reversed totalBytes =
      ⟨reversed.reverse.flatten ++ pending, .complete⟩ := by
  rw [retainedLineLimit] at h
  rw [finishPending]
  cases pending with
  | nil =>
    rw [List.append_nil]
    rfl
  | cons byte pending =>
    have hline := h.trans (min_le_left _ _)
    have hrest := h.trans (min_le_right _ _)
    simp only [isEmpty_cons, Bool.false_eq_true, if_false, take_of_length_le h,
      Nat.not_lt.mpr hline, Nat.not_lt.mpr hrest, finish, reverse_cons, flatten_append,
      flatten_singleton]

/-- **What is kept is where the stream begins; all of it is kept if it is said to be complete.** -/
theorem readBoundedStdout_spec (lineLimit byteLimit : ℤ) (stream : Bytes) :
    ∃ capture, (∀ chunks : List Bytes, (∀ chunk ∈ chunks, chunk ≠ []) → chunks.flatten = stream →
        readBoundedStdout lineLimit byteLimit chunks = capture) ∧
      (capture = ⟨stream, .complete⟩ ∨ Truncated lineLimit stream capture) := by
  have hread : ∀ chunks : List Bytes, (∀ chunk ∈ chunks, chunk ≠ []) → chunks.flatten = stream →
      readBoundedStdout lineLimit byteLimit chunks =
        match consume lineLimit byteLimit stream [] 0 0 with
        | .done capture => capture
        | .more pending reversed totalBytes _ =>
            finishPending byteLimit pending reversed totalBytes := by
    rintro chunks hchunks rfl
    exact go_eq lineLimit byteLimit hchunks rfl (Nat.zero_le _)
  refine ⟨_, hread, ?_⟩
  cases hconsumed : consume lineLimit byteLimit stream [] 0 0 with
  | done capture => exact Or.inr (consume_done (Nat.zero_le _) hconsumed)
  | more pending reversed totalBytes totalLines =>
    obtain ⟨-, hle, hflat⟩ := consume_more hconsumed
    left
    dsimp only
    rw [finishPending_of_le hle, hflat]
    rfl

/-! ### What is printed -/

/-- The lines with their newlines; the last one may have none. -/
@[grind =] def endedLines : Bytes → List Bytes
  | [] => []
  | byte :: rest =>
      if byte = 10 then [byte] :: endedLines rest
      else
        match endedLines rest with
        | [] => [[byte]]
        | line :: more => (byte :: line) :: more

/-- The bytes of the lines that are printed. -/
def shownBytes (limit : ℤ) (bytes : Bytes) : Bytes := ((endedLines bytes).take limit.toNat).flatten

theorem endedLines_append {line : Bytes} (h : (10 : UInt8) ∉ line) (rest : Bytes) :
    endedLines (line ++ 10 :: rest) = (line ++ [10]) :: endedLines rest := by
  induction line with
  | nil => rw [nil_append, endedLines, if_pos rfl, nil_append]
  | cons byte line ih =>
    have hbyte : byte ≠ 10 := fun heq => h (heq ▸ mem_cons_self)
    rw [cons_append, endedLines, if_neg hbyte, ih fun hmem => h (mem_cons_of_mem _ hmem)]
    rfl

theorem endedLines_single {line : Bytes} (h : (10 : UInt8) ∉ line) (hne : line ≠ []) :
    endedLines line = [line] := by
  induction line with
  | nil => exact absurd rfl hne
  | cons byte line ih =>
    have hbyte : byte ≠ 10 := fun heq => h (heq ▸ mem_cons_self)
    have hrest : (10 : UInt8) ∉ line := fun hmem => h (mem_cons_of_mem _ hmem)
    rw [endedLines, if_neg hbyte]
    cases line with
    | nil => rfl
    | cons other line => rw [ih hrest (cons_ne_nil _ _)]

/-- The bytes are nothing, a line without an end, or a line and others. -/
theorem lines_induction {motive : Bytes → Prop} (nil : motive [])
    (single : ∀ line, (10 : UInt8) ∉ line → line ≠ [] → motive line)
    (cons : ∀ line rest, (10 : UInt8) ∉ line → motive rest → motive (line ++ 10 :: rest))
    (bytes : Bytes) : motive bytes := by
  induction hlength : bytes.length using Nat.strong_induction_on generalizing bytes with
  | _ length ih =>
    subst hlength
    by_cases hmem : (10 : UInt8) ∈ bytes
    · obtain ⟨line, rest, heq, hline⟩ := eq_append_cons_of_mem hmem
      rw [heq]
      refine cons line rest hline (ih rest.length ?_ rest rfl)
      rw [heq, length_append, length_cons]
      omega
    · rcases eq_or_ne bytes [] with rfl | hne
      · exact nil
      · exact single bytes hmem hne

theorem flatten_endedLines (bytes : Bytes) :
    (endedLines bytes).flatten = bytes ∧ ∀ line ∈ endedLines bytes, line ≠ [] := by
  induction bytes using lines_induction with
  | nil => exact ⟨rfl, fun line hline => by cases hline⟩
  | single line hline hne =>
    rw [endedLines_single hline hne, flatten_singleton, forall_mem_singleton]
    exact ⟨rfl, hne⟩
  | cons line rest hline ih =>
    rw [endedLines_append hline, flatten_cons, ih.1, forall_mem_cons, append_assoc]
    exact ⟨rfl, by simp, ih.2⟩

theorem count_le_length_endedLines (bytes : Bytes) :
    bytes.count 10 ≤ (endedLines bytes).length := by
  induction bytes using lines_induction with
  | nil => exact Nat.zero_le _
  | single line hline hne =>
    rw [count_eq_zero_of_not_mem hline]
    exact Nat.zero_le _
  | cons line rest hline ih =>
    rw [endedLines_append hline, count_append, count_cons_self, length_cons,
      count_eq_zero_of_not_mem hline]
    omega

theorem shownBytes_prefixed (limit : ℤ) (bytes : Bytes) : shownBytes limit bytes <+: bytes := by
  have hflat := (flatten_endedLines bytes).1
  refine ⟨((endedLines bytes).drop limit.toNat).flatten, ?_⟩
  rw [shownBytes, ← flatten_append, take_append_drop, hflat]

/-- All bytes are printed exactly if all lines are. -/
theorem shownBytes_eq_iff (limit : ℤ) (bytes : Bytes) :
    shownBytes limit bytes = bytes ↔ (endedLines bytes).length ≤ limit.toNat := by
  obtain ⟨hflat, hne⟩ := flatten_endedLines bytes
  constructor
  · intro heq
    by_contra hlt
    -- the line behind those that are printed is not empty
    have hrest : ((endedLines bytes).drop limit.toNat).flatten = [] := by
      have happend : shownBytes limit bytes ++ ((endedLines bytes).drop limit.toNat).flatten =
          bytes := by
        rw [shownBytes, ← flatten_append, take_append_drop, hflat]
      rw [heq] at happend
      exact append_cancel_left (happend.trans (List.append_nil bytes).symm)
    have hline := drop_eq_getElem_cons (Nat.lt_of_not_le hlt)
    rw [hline, flatten_cons, append_eq_nil_iff] at hrest
    exact hne _ (getElem_mem _) hrest.1
  · intro hle
    rw [shownBytes, take_of_length_le hle, hflat]

/-- There is a footer if lines are missing or something is behind what is kept. -/
theorem grepFooter_ne_nil_iff (limit : ℤ) (count : ℕ) (truncation : GrepTruncation) :
    grepFooter limit count truncation ≠ [] ↔ (count : ℤ) > limit ∨ truncation ≠ .complete := by
  -- each of the texts has a first character
  have htext : ∀ first middle last : Text, first ≠ [] → first ++ middle ++ last ≠ [] := by
    intro first middle last hne heq
    rw [append_assoc, append_eq_nil_iff] at heq
    exact hne heq.1
  rw [grepFooter]
  split
  · next h =>
    refine iff_of_true (htext _ _ _ (by decide)) ?_
    rcases h with rfl | h
    · exact Or.inr (by decide)
    · exact Or.inl h
  · next h =>
    rw [not_or] at h
    split
    · next hlong => exact iff_of_true (htext _ _ _ (by decide)) (Or.inr (by rw [hlong]; decide))
    · next hlong =>
      split
      · next hbyte => exact iff_of_true (htext _ _ _ (by decide)) (Or.inr (by rw [hbyte]; decide))
      · next hbyte =>
        refine iff_of_false (fun hne => hne rfl) ?_
        rintro (hcount | hne)
        · exact h.2 hcount
        · cases truncation with
          | complete => exact hne rfl
          | lineTruncated => exact h.1 rfl
          | longLineTruncated => exact hlong rfl
          | byteTruncated => exact hbyte rfl

section Decoding

/- Invalid bytes are replaced; a newline stays a newline and there are no others. -/
variable {decode : Bytes → Text} (hnil : ∀ bytes, decode bytes = [] ↔ bytes = [])
  (hfeed : ∀ line rest, decode (line ++ 10 :: rest) = decode line ++ '\n' :: decode rest)
  (hline : ∀ line, (10 : UInt8) ∉ line → '\n' ∉ decode line)
include hnil hfeed hline

/-- The text has as many lines as the bytes. -/
theorem length_lines_decode (bytes : Bytes) :
    (lines (decode bytes)).length = (endedLines bytes).length := by
  induction bytes using lines_induction with
  | nil =>
    rw [(hnil []).mpr rfl]
    rfl
  | single line hmem hne =>
    rw [endedLines_single hmem hne, lines_single (hline line hmem) fun h => hne ((hnil line).mp h)]
    rfl
  | cons line rest hmem ih =>
    rw [hfeed, endedLines_append hmem, lines_append_feed (hline line hmem), length_cons,
      length_cons, ih]

/-- The lines that are printed are those of the bytes that are printed. -/
theorem take_lines_decode (bytes : Bytes) (limit : ℕ) :
    (lines (decode bytes)).take limit = lines (decode (shownBytes limit bytes)) := by
  induction bytes using lines_induction generalizing limit with
  | nil => simp [shownBytes, endedLines, (hnil []).mpr rfl, lines]
  | single line hmem hne =>
    cases limit with
    | zero => simp [shownBytes, (hnil []).mpr rfl, lines]
    | succ limit =>
      have hdecoded : decode line ≠ [] := fun h => hne ((hnil line).mp h)
      rw [shownBytes, endedLines_single hmem hne, Int.toNat_natCast, take_succ_cons,
        take_nil, flatten_singleton, lines_single (hline line hmem) hdecoded,
        take_succ_cons, take_nil]
  | cons line rest hmem ih =>
    cases limit with
    | zero => simp [shownBytes, (hnil []).mpr rfl, lines]
    | succ limit =>
      have hshown : shownBytes ((limit + 1 : ℕ) : ℤ) (line ++ 10 :: rest) =
          line ++ 10 :: shownBytes limit rest := by
        rw [shownBytes, endedLines_append hmem, Int.toNat_natCast, take_succ_cons,
          flatten_cons, append_assoc, singleton_append, shownBytes,
          Int.toNat_natCast]
      rw [hshown, hfeed, hfeed, lines_append_feed (hline line hmem),
        lines_append_feed (hline line hmem), take_succ_cons, ih]

/-- **A footer says that something is missing**: there is one exactly if the lines that are printed
are not the whole stream. -/
theorem footer_iff_not_shown {limit : ℤ} {stream : Bytes} {capture : GrepCapture}
    (hne : capture.captureBytes ≠ [])
    (h : capture = ⟨stream, .complete⟩ ∨ Truncated (limit + 1) stream capture) :
    grepFooter limit (lines (decode capture.captureBytes)).length capture.captureTruncation ≠ [] ↔
      shownBytes limit capture.captureBytes ≠ stream := by
  rw [length_lines_decode hnil hfeed hline]
  -- nothing is printed with a limit below zero
  have hlimit : ((endedLines capture.captureBytes).length : ℤ) > limit ↔
      shownBytes limit capture.captureBytes ≠ capture.captureBytes := by
    have hpos : 0 < (endedLines capture.captureBytes).length := by
      rw [length_pos_iff]
      intro hnone
      have hflat := (flatten_endedLines capture.captureBytes).1
      rw [hnone] at hflat
      exact hne hflat.symm
    rw [Ne, shownBytes_eq_iff]
    omega
  rw [grepFooter_ne_nil_iff]
  rcases h with rfl | h
  · rw [← hlimit]
    exact or_iff_left fun hne => hne rfl
  · refine iff_of_true (Or.inr h.notComplete) fun heq => ?_
    have hshown := (shownBytes_prefixed limit capture.captureBytes).length_le
    rw [heq] at hshown
    have hstarts := h.starts.length_le
    by_cases hlines : capture.captureTruncation = .lineTruncated
    · -- a line that is kept is not printed
      have hcount := h.lines hlines
      have hended := count_le_length_endedLines capture.captureBytes
      have hwhole : shownBytes limit capture.captureBytes ≠ capture.captureBytes :=
        hlimit.mp (by omega)
      exact hwhole (heq.trans (h.starts.eq_of_length (by omega)).symm)
    · have hshorter := h.shorter hlines
      omega

/-- **The capture depends on the stream only**, is where it begins, and is complete only if it is all
of it; a card that has lines has those that are printed and a footer exactly if there are others. -/
theorem grep_output_bounded (lineLimit byteLimit : ℤ) (stream : Bytes) :
    ∃ capture, (∀ chunks : List Bytes, (∀ chunk ∈ chunks, chunk ≠ []) → chunks.flatten = stream →
        readBoundedStdout lineLimit byteLimit chunks = capture) ∧
      capture.captureBytes <+: stream ∧
      (capture.captureTruncation = .complete → capture.captureBytes = stream) ∧
      ∀ cwd, Patch.strip (decode capture.captureBytes) ≠ [] → ∃ footer,
        formatGrepCard cwd (decode capture.captureBytes) (lineLimit - 1) capture.captureTruncation =
          "<workspace_result>\n".toList ++
            unlinesText ((lines (decode (shownBytes (lineLimit - 1) capture.captureBytes))).map
              (makeWorkspaceRelative cwd)) ++ footer ++ "</workspace_result>".toList ∧
        (footer ≠ [] ↔ shownBytes (lineLimit - 1) capture.captureBytes ≠ stream) := by
  obtain ⟨capture, hread, hcapture⟩ := readBoundedStdout_spec lineLimit byteLimit stream
  refine ⟨capture, hread, ?_, ?_, fun cwd hblank => ⟨grepFooter (lineLimit - 1)
    (lines (decode capture.captureBytes)).length capture.captureTruncation, ?_, ?_⟩⟩
  · rcases hcapture with rfl | h
    · exact prefix_refl stream
    · exact h.starts
  · intro hcomplete
    rcases hcapture with rfl | h
    · rfl
    · exact absurd hcomplete h.notComplete
  · have hlimit : shownBytes (lineLimit - 1) capture.captureBytes =
        shownBytes (lineLimit - 1).toNat capture.captureBytes := by
      rw [shownBytes, shownBytes, Int.toNat_natCast]
    rw [formatGrepCard, if_neg (by simpa using hblank), hlimit,
      ← take_lines_decode hnil hfeed hline, map_take]
    dsimp only
    rw [length_map]
  · have hne : capture.captureBytes ≠ [] := by
      intro hnone
      rw [hnone, (hnil []).mpr rfl] at hblank
      exact hblank rfl
    refine footer_iff_not_shown hnil hfeed hline hne ?_
    rwa [sub_add_cancel]

end Decoding

/-! ### A search that finds two blank lines -/

/-- Bytes that are not those of a character alone are replaced. -/
def decodeAscii (bytes : Bytes) : Text :=
  bytes.map fun byte => if byte < 128 then Char.ofNat byte.toNat else '\uFFFD'

theorem readBoundedStdout_blank :
    readBoundedStdout 2 100 [[10, 10, 10]] = ⟨[10, 10], .lineTruncated⟩ := by
  have hfirst : ([10, 10, 10] : Bytes).findIdx? (· == 10) = some 0 := rfl
  have hsecond : ([10, 10] : Bytes).findIdx? (· == 10) = some 0 := rfl
  rw [readBoundedStdout, go, if_neg (by decide)]
  simp only [isEmpty_nil, if_true]
  rw [consume_of_some hfirst, if_neg (by decide), if_neg (by decide)]
  dsimp only [List.drop, List.take]
  rw [consume_of_some hsecond, if_neg (by decide), if_pos (by decide)]
  rfl

/-- Blank lines are no matches: there is no footer although the last newline is not kept. -/
theorem blank_output_without_footer :
    readBoundedStdout 2 100 [[10, 10, 10]] = ⟨[10, 10], .lineTruncated⟩ ∧
      shownBytes 1 [10, 10] ≠ [10, 10, 10] ∧
      ∀ cwd, formatGrepCard cwd (decodeAscii [10, 10]) 1 .lineTruncated =
        "No matches found.".toList :=
  ⟨readBoundedStdout_blank, by decide, fun cwd => if_pos (by decide)⟩

theorem grep_output_bounded_letter :
    ∃ capture, readBoundedStdout 2 100 [[97], [10]] = capture ∧
      readBoundedStdout 2 100 [[97, 10]] = capture ∧ capture.captureBytes <+: [97, 10] := by
  have hnil : ∀ bytes, decodeAscii bytes = [] ↔ bytes = [] := fun bytes => map_eq_nil_iff
  have hfeed : ∀ line rest, decodeAscii (line ++ 10 :: rest) =
      decodeAscii line ++ '\n' :: decodeAscii rest := by
    intro line rest
    rw [decodeAscii, map_append, map_cons]
    rfl
  have hbyte : ∀ byte : UInt8, (if byte < 128 then Char.ofNat byte.toNat else '\uFFFD') = '\n' →
      byte = 10 := by
    intro byte hbyte
    split at hbyte
    · next hlt =>
      have hsmall := UInt8.lt_iff_toNat_lt.mp hlt
      have hnat : (Char.ofNat byte.toNat).toNat = byte.toNat := by
        rw [Char.ofNat, dif_pos (Or.inl (hsmall.trans (by decide)))]
        rfl
      rw [hbyte] at hnat
      exact UInt8.toNat_inj.mp hnat.symm
    · cases hbyte
  have hline : ∀ line, (10 : UInt8) ∉ line → '\n' ∉ decodeAscii line := by
    intro line hline hmem
    obtain ⟨byte, hin, heq⟩ := List.mem_map.mp hmem
    exact hline (hbyte byte heq ▸ hin)
  obtain ⟨capture, hread, hstarts, -, -⟩ := grep_output_bounded hnil hfeed hline 2 100 [97, 10]
  exact ⟨capture, hread _ (by decide) rfl, hread _ (by decide) rfl, hstarts⟩

end Grep
end HaskellAgent
