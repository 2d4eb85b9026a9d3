import HaskellAgent.Loop.Input
import Mathlib.Data.List.TakeWhile

/-!
# Incremental framing of server-sent events

A response body arrives in chunks that are cut anywhere.  The framer collects the chunks of the
current line and the lines of the current block, counts the wire bytes since the last blank line,
and hands each block to a decoder as soon as a blank line ends it.

Byte strings are lists of bytes.  The error type, its constructor for decoding errors and the
lenient decoding of an error's preview are parameters.
-/

open List

namespace HaskellAgent

/-- A byte string. -/
abbrev Bytes := List UInt8

def maxSseEventBytes : ℤ := 64 * 1024 * 1024

/-- Strip exactly one carriage return. -/
def dropTrailingCarriageReturn (bytes : Bytes) : Bytes :=
  match bytes.getLast? with
  | some 0x0d => bytes.dropLast
  | _ => bytes

/-- The chunks of the current line and the lines of the current block, latest first, and the wire
bytes since the last blank line. -/
structure SseFramer where
  lineChunksRev : List Bytes
  blockLinesRev : List Bytes
  eventBytes : ℤ

def newSseFramer : SseFramer := ⟨[], [], 0⟩

section Framer

variable {η ε : Type} (jsonDecodeError : Text → Text → η) (lenientDecode : Bytes → Text)
  (provider : Text) (decodeBlock : Bytes → Except η (Option ε))

def takeByteChunks : ℤ → List Bytes → List Bytes
  | remaining, chunks =>
      if remaining ≤ 0 then []
      else match chunks with
        | [] => []
        | chunk :: rest =>
            let kept := chunk.take remaining.toNat
            kept :: takeByteChunks (remaining - kept.length) rest

def framerPreview (framer : SseFramer) : Text :=
  lenientDecode (takeByteChunks 2000
    (framer.blockLinesRev.reverse ++ framer.lineChunksRev.reverse)).flatten

/-- The error of a block over the size limit. -/
def sseLimitError (preview : Text) : η :=
  jsonDecodeError (provider ++ " SSE event exceeds ".toList ++ (toString maxSseEventBytes).toList
    ++ " bytes".toList) preview

def addEventBytes (amount : ℤ) (framer : SseFramer) : Except η SseFramer :=
  if amount ≤ maxSseEventBytes - framer.eventBytes then
    .ok { framer with eventBytes := framer.eventBytes + amount }
  else .error (sseLimitError jsonDecodeError provider (framerPreview lenientDecode framer))

def appendLinePart (framer : SseFramer) (chunk : Bytes) : Except η SseFramer :=
  if chunk.isEmpty then .ok framer
  else (addEventBytes jsonDecodeError lenientDecode provider chunk.length framer).map
    fun withBytes => { withBytes with lineChunksRev := chunk :: withBytes.lineChunksRev }

def completeLine (framer : SseFramer) : Bytes :=
  dropTrailingCarriageReturn framer.lineChunksRev.reverse.flatten

def decodeBlockLines (lines : List Bytes) : Except η (Option ε) :=
  match lines with
  | [] => .ok none
  | lines => decodeBlock (List.intercalate [0x0a] lines)

def consumeLine (framer : SseFramer) (line : Bytes) : Except η (SseFramer × Option ε) :=
  if line.isEmpty then
    (decodeBlockLines decodeBlock framer.blockLinesRev.reverse).map
      fun decoded => (newSseFramer, decoded)
  else .ok ({ framer with blockLinesRev := line :: framer.blockLinesRev }, none)

/-- The loop of `feedSseFramer` over the lines of a chunk. -/
def decodeAvailable (current : SseFramer) (bytes : Bytes) (events : List ε) :
    Except η (SseFramer × List ε) :=
  if bytes.isEmpty then .ok (current, events.reverse)
  else
    let linePart := bytes.takeWhile (· != 0x0a)
    match _hrest : bytes.dropWhile (· != 0x0a) with
    -- no line feed in the rest of the chunk: the line stays open
    | [] =>
        (appendLinePart jsonDecodeError lenientDecode provider current linePart).map
          fun next => (next, events.reverse)
    | _ :: tail => do
        let withPart ← appendLinePart jsonDecodeError lenientDecode provider current linePart
        -- the line feed counts toward the limit of its block
        let withNewline ← addEventBytes jsonDecodeError lenientDecode provider 1 withPart
        let line := completeLine withNewline
        let afterLine := { withNewline with lineChunksRev := [] }
        let (next, decoded) ← consumeLine decodeBlock afterLine line
        decodeAvailable next tail (match decoded with | none => events | some e => e :: events)
termination_by bytes.length
decreasing_by
  have hle := (dropWhile_suffix (fun b : UInt8 => b != 0x0a) (l := bytes)).length_le
  rw [_hrest, length_cons] at hle
  omega

/-- Feed a chunk of the body. -/
def feedSseFramer (framer : SseFramer) (chunk : Bytes) : Except η (SseFramer × List ε) :=
  decodeAvailable jsonDecodeError lenientDecode provider decodeBlock framer chunk []

/-- Accept a final block without its blank line. -/
def finishSseFramer (framer : SseFramer) : Except η (List ε) := do
  -- a last line without a line feed is complete
  let (afterLine, lineEvent) ←
    if framer.lineChunksRev.isEmpty then .ok (framer, none)
    else consumeLine decodeBlock { framer with lineChunksRev := [] } (completeLine framer)
  let blockEvent ← decodeBlockLines decodeBlock afterLine.blockLinesRev.reverse
  pure (lineEvent.toList ++ blockEvent.toList)

/-- Feed the chunks in turn and collect their events. -/
def feedChunks (framer : SseFramer) : List Bytes → Except η (SseFramer × List ε)
  | [] => .ok (framer, [])
  | chunk :: rest => do
      let (next, events) ← feedSseFramer jsonDecodeError lenientDecode provider decodeBlock framer
        chunk
      let (last, more) ← feedChunks next rest
      pure (last, events ++ more)

/-- Frame a body that arrives in chunks. -/
def frameChunks (chunks : List Bytes) : Except η (List ε) := do
  let (framer, events) ← feedChunks jsonDecodeError lenientDecode provider decodeBlock newSseFramer
    chunks
  let trailing ← finishSseFramer decodeBlock framer
  pure (events ++ trailing)

end Framer

/-! ### What a body means -/

/-- Why a body cannot be decoded. -/
inductive SseFailure (η : Type)
  /-- A block is over the size limit. -/
  | limit
  /-- The decoder rejected a block. -/
  | decoder (e : η)

/-- The non-empty lines of a block, and its wire bytes up to and including its blank line. -/
structure WireBlock where
  lines : List Bytes
  size : ℤ

/-- The lines of a block that ends with this line. -/
def closeBlock (lines : List Bytes) (last : Bytes) : List Bytes :=
  if (dropTrailingCarriageReturn last).isEmpty then lines
  else lines ++ [dropTrailingCarriageReturn last]

/-- Group the lines of a body, the last of which has no line feed, behind the lines of an open
block. -/
@[grind =] def groupLines : List Bytes → List Bytes → ℤ → List WireBlock
  | [], lines, size => [⟨lines, size⟩]
  | [last], lines, size => [⟨closeBlock lines last, size + last.length⟩]
  | raw :: rest, lines, size =>
      if (dropTrailingCarriageReturn raw).isEmpty then
        ⟨lines, size + raw.length + 1⟩ :: groupLines rest [] 0
      else groupLines rest (lines ++ [dropTrailingCarriageReturn raw]) (size + raw.length + 1)

/-- The blocks of a body, each ended by a blank line or the end of the body. -/
def wireBlocks (bytes : Bytes) : List WireBlock := groupLines (bytes.splitOn 0x0a) [] 0

/-- The maximal runs of non-empty lines. -/
def maximalRuns (lines : List Bytes) : List (List Bytes) :=
  (lines.splitOnP List.isEmpty).filter (fun run => !run.isEmpty)

/-- The blocks a decoder sees: split at line feeds, strip one carriage return from each line, join
each maximal run of non-empty lines. -/
def sseBlocks (bytes : Bytes) : List Bytes :=
  (maximalRuns ((bytes.splitOn 0x0a).map dropTrailingCarriageReturn)).map (List.intercalate [0x0a])

section Meaning

variable {η ε : Type} (decodeBlock : Bytes → Except η (Option ε))

/-- Decode the blocks in wire order, up to the first failure. -/
@[grind =] def runBlocks : List WireBlock → Except (SseFailure η) (List ε)
  | [] => .ok []
  | block :: rest =>
      if maxSseEventBytes < block.size then .error .limit
      else match decodeBlockLines decodeBlock block.lines with
        | .error e => .error (.decoder e)
        | .ok decoded => (runBlocks rest).map (decoded.toList ++ ·)

/-! ### Reading byte by byte -/

/-- The current line, the lines of the current block, and its wire bytes. -/
structure FrameState where
  line : Bytes
  lines : List Bytes
  bytes : ℤ

/-- Decode the lines of a block. -/
def decodeLines (lines : List Bytes) : Except (SseFailure η) (Option ε) :=
  (decodeBlockLines decodeBlock lines).mapError .decoder

/-- Read one byte. -/
def stepByte (s : FrameState) (b : UInt8) : Except (SseFailure η) (FrameState × Option ε) :=
  if maxSseEventBytes < s.bytes + 1 then .error .limit
  else if b = 0x0a then
    if (dropTrailingCarriageReturn s.line).isEmpty then
      (decodeLines decodeBlock s.lines).map fun decoded => (⟨[], [], 0⟩, decoded)
    else .ok (⟨[], s.lines ++ [dropTrailingCarriageReturn s.line], s.bytes + 1⟩, none)
  else .ok (⟨s.line ++ [b], s.lines, s.bytes + 1⟩, none)

/-- Read bytes. -/
@[grind =] def scan (s : FrameState) : Bytes → Except (SseFailure η) (FrameState × List ε)
  | [] => .ok (s, [])
  | b :: bytes => do
      let (next, event) ← stepByte decodeBlock s b
      let (last, events) ← scan next bytes
      pure (last, event.toList ++ events)

/-- The block that is open at the end of the body. -/
def finishScan (s : FrameState) : Except (SseFailure η) (List ε) :=
  (decodeLines decodeBlock (closeBlock s.lines s.line)).map Option.toList

/-- Read a body to its end. -/
def scanAll (s : FrameState) (bytes : Bytes) : Except (SseFailure η) (List ε) := do
  let (last, events) ← scan decodeBlock s bytes
  let trailing ← finishScan decodeBlock last
  pure (events ++ trailing)

theorem scan_append (s : FrameState) (left right : Bytes) :
    scan decodeBlock s (left ++ right) = (do
      let (next, events) ← scan decodeBlock s left
      let (last, more) ← scan decodeBlock next right
      pure (last, events ++ more)) := by
  induction left generalizing s with
  | nil =>
    rw [nil_append, scan]
    simp only [bind, Except.bind]
    cases hscan : scan decodeBlock s right with
    | error e | ok r => rfl
  | cons b left ih =>
    rw [cons_append, scan, scan]
    cases hstep : stepByte decodeBlock s b with
    | error e => rfl
    | ok r =>
      obtain ⟨next, event⟩ := r
      simp only [bind, Except.bind, ih]
      cases hleft : scan decodeBlock next left with
      | error e => rfl
      | ok l =>
        obtain ⟨mid, events⟩ := l
        simp only [pure, Except.pure]
        cases hright : scan decodeBlock mid right with
        | error e => rfl
        | ok r => simp

/-- Bytes without a line feed extend the line, as far as the size limit allows. -/
theorem scan_line (s : FrameState) (part : Bytes) (hpart : ∀ b ∈ part, b ≠ 0x0a) :
    scan decodeBlock s part
      = if part = [] ∨ s.bytes + part.length ≤ maxSseEventBytes then
          .ok (⟨s.line ++ part, s.lines, s.bytes + part.length⟩, [])
        else .error .limit := by
  induction part generalizing s with
  | nil => simp [scan]
  | cons b part ih =>
    have hb : b ≠ 0x0a := hpart b mem_cons_self
    rw [scan, stepByte]
    by_cases hover : maxSseEventBytes < s.bytes + 1
    · rw [if_pos hover, if_neg (by
        simp only [reduceCtorEq, false_or, length_cons]
        omega)]
      rfl
    · rw [if_neg hover, if_neg hb]
      simp only [bind, Except.bind, ih _ fun c hc => hpart c (mem_cons_of_mem _ hc)]
      -- the limit is checked at every byte, and the whole part fits if its last byte does
      by_cases hfits : s.bytes + (b :: part).length ≤ maxSseEventBytes
      · rw [length_cons] at hfits
        rw [if_pos (.inr (by omega)), if_pos (.inr (by rw [length_cons]; exact hfits))]
        simp only [pure, Except.pure, Except.ok.injEq, Prod.mk.injEq, FrameState.mk.injEq,
          length_cons, append_assoc, singleton_append, Option.toList_none,
          nil_append, true_and, and_true]
        omega
      · rw [length_cons] at hfits
        have hne : part ≠ [] := by
          rintro rfl
          simp only [length_nil] at hfits
          omega
        rw [if_neg (by simp only [hne, false_or]; omega), if_neg (by simp; omega)]

end Meaning

/-! ### The framer reads byte by byte -/

section Agreement

variable {η ε : Type} (jsonDecodeError : Text → Text → η) (lenientDecode : Bytes → Text)
  (provider : Text) (decodeBlock : Bytes → Except η (Option ε))

/-- A result of the framer agrees with what the body means: related values, the decoder's own error,
or a limit error with some preview. -/
inductive Agrees {α β : Type} (R : α → β → Prop) : Except η α → Except (SseFailure η) β → Prop
  | ok {a : α} {b : β} : R a b → Agrees R (.ok a) (.ok b)
  | limit (preview : Text) :
      Agrees R (.error (sseLimitError jsonDecodeError provider preview)) (.error .limit)
  | decoder (e : η) : Agrees R (.error e) (.error (.decoder e))

variable {jsonDecodeError provider}

theorem Agrees.bind {α β γ δ : Type} {R : α → β → Prop} {S : γ → δ → Prop} {x : Except η α}
    {y : Except (SseFailure η) β} (h : Agrees jsonDecodeError provider R x y)
    {f : α → Except η γ} {g : β → Except (SseFailure η) δ}
    (hfg : ∀ a b, R a b → Agrees jsonDecodeError provider S (f a) (g b)) :
    Agrees jsonDecodeError provider S (x >>= f) (y >>= g) := by
  cases h with
  | ok hab => exact hfg _ _ hab
  | limit preview => exact .limit preview
  | decoder e => exact .decoder e

/-- As `Agrees.bind`, where the framer's part is itself a sequence. -/
theorem Agrees.bind_bind {α α' β γ δ : Type} {R : α' → β → Prop} {S : γ → δ → Prop}
    {x : Except η α} {k : α → Except η α'} {y : Except (SseFailure η) β}
    (h : Agrees jsonDecodeError provider R (x >>= k) y)
    {f : α' → Except η γ} {g : β → Except (SseFailure η) δ}
    (hfg : ∀ a b, R a b → Agrees jsonDecodeError provider S (f a) (g b)) :
    Agrees jsonDecodeError provider S (x >>= fun a => k a >>= f) (y >>= g) := by
  rw [← bind_assoc]
  exact h.bind hfg

/-- As `Agrees.bind`, where only the meaning goes on. -/
theorem Agrees.bind_right {α β δ : Type} {R : α → β → Prop} {S : α → δ → Prop}
    {x : Except η α} {y : Except (SseFailure η) β}
    (h : Agrees jsonDecodeError provider R x y) {g : β → Except (SseFailure η) δ}
    (hfg : ∀ a b, R a b → Agrees jsonDecodeError provider S (.ok a) (g b)) :
    Agrees jsonDecodeError provider S x (y >>= g) := by
  rw [← bind_pure x]
  exact h.bind hfg

theorem Agrees.map {α β γ δ : Type} {R : α → β → Prop} {S : γ → δ → Prop} {x : Except η α}
    {y : Except (SseFailure η) β} (h : Agrees jsonDecodeError provider R x y) {f : α → γ}
    {g : β → δ} (hfg : ∀ a b, R a b → S (f a) (g b)) :
    Agrees jsonDecodeError provider S (x.map f) (y.map g) := by
  cases h with
  | ok hab => exact .ok (hfg _ _ hab)
  | limit preview => exact .limit preview
  | decoder e => exact .decoder e

theorem Agrees.ok_iff {α : Type} {x : Except η α} {y : Except (SseFailure η) α}
    (h : Agrees jsonDecodeError provider Eq x y) (a : α) : x = .ok a ↔ y = .ok a := by
  cases h with
  | ok hab => rw [hab, Except.ok.injEq, Except.ok.injEq]
  | limit preview | decoder e => simp

theorem agrees_decodeLines (lines : List Bytes) :
    Agrees jsonDecodeError provider Eq (decodeBlockLines decodeBlock lines)
      (decodeLines decodeBlock lines) := by
  unfold decodeLines
  cases decodeBlockLines decodeBlock lines with
  | error e => exact .decoder e
  | ok decoded => exact .ok rfl

/-- A framer holds this state. -/
structure SseFramer.Holds (framer : SseFramer) (s : FrameState) : Prop where
  line : framer.lineChunksRev.reverse.flatten = s.line
  lines : framer.blockLinesRev.reverse = s.lines
  bytes : framer.eventBytes = s.bytes

theorem newSseFramer_holds : newSseFramer.Holds ⟨[], [], 0⟩ :=
  ⟨rfl, rfl, rfl⟩

variable {s : FrameState} {framer : SseFramer}

/-- Part of a line. -/
theorem agrees_appendLinePart (h : framer.Holds s)
    {part : Bytes} (hpart : ∀ b ∈ part, b ≠ 0x0a) :
    Agrees jsonDecodeError provider (fun f r => f.Holds r.1 ∧ r.2 = ([] : List ε))
      (appendLinePart jsonDecodeError lenientDecode provider framer part)
      (scan decodeBlock s part) := by
  rw [scan_line decodeBlock s part hpart, appendLinePart]
  by_cases hnil : part = []
  · subst hnil
    simpa using Agrees.ok (R := fun (f : SseFramer) (r : FrameState × List ε) =>
      f.Holds r.1 ∧ r.2 = []) ⟨h, rfl⟩
  · rw [if_neg (by simpa using hnil)]
    -- the framer checks the limit once for the part
    unfold addEventBytes
    by_cases hfits : s.bytes + part.length ≤ maxSseEventBytes
    · rw [if_pos (by rw [h.bytes]; omega), if_pos (.inr hfits)]
      refine .ok ⟨⟨?_, h.lines, ?_⟩, rfl⟩
      · simp [h.line]
      · simp [h.bytes]
    · rw [if_neg (by rw [h.bytes]; omega), if_neg (by simp [hnil, hfits])]
      exact .limit _

/-- The line feed of a line. -/
theorem agrees_newline (h : framer.Holds s) :
    Agrees jsonDecodeError provider (fun f r => f.1.Holds r.1 ∧ f.2 = r.2)
      (do
        let withNewline ← addEventBytes jsonDecodeError lenientDecode provider 1 framer
        let line := completeLine withNewline
        let afterLine := { withNewline with lineChunksRev := [] }
        consumeLine decodeBlock afterLine line)
      (stepByte decodeBlock s 0x0a) := by
  unfold addEventBytes stepByte
  by_cases hover : maxSseEventBytes < s.bytes + 1
  · rw [if_pos hover, if_neg (by rw [h.bytes]; omega)]
    exact .limit _
  · rw [if_neg hover, if_pos rfl, if_pos (by rw [h.bytes]; omega)]
    simp only [bind, Except.bind, consumeLine, completeLine, h.line, h.lines]
    split
    · exact (agrees_decodeLines decodeBlock s.lines).map
        fun _ _ heq => ⟨newSseFramer_holds, heq⟩
    · refine .ok ⟨⟨rfl, ?_, ?_⟩, rfl⟩
      · simp [h.lines]
      · simp [h.bytes]

theorem except_map_eq_bind {α β : Type} (f : α → β) (x : Except η α) :
    x.map f = x >>= fun a => .ok (f a) := by
  cases x <;> rfl

/-- **Feeding a chunk is reading its bytes.** -/
theorem feed_scan (current : SseFramer) (bytes : Bytes) (events : List ε)
    (h : current.Holds s) :
    Agrees jsonDecodeError provider
      (fun f r => f.1.Holds r.1 ∧ f.2 = events.reverse ++ r.2)
      (decodeAvailable jsonDecodeError lenientDecode provider decodeBlock current bytes events)
      (scan decodeBlock s bytes) := by
  -- each round of the loop takes one line off the chunk
  induction hlen : bytes.length using Nat.strong_induction_on
    generalizing current bytes events s with
  | _ n ih =>
    subst hlen
    have hpart : ∀ b ∈ bytes.takeWhile (· != 0x0a), b ≠ 0x0a := by
      intro b hb
      simpa using mem_takeWhile_imp hb
    have hsplit := takeWhile_append_dropWhile (p := fun b : UInt8 => b != 0x0a) (l := bytes)
    have hscan : scan decodeBlock s bytes = scan decodeBlock s
        (bytes.takeWhile (· != 0x0a) ++ bytes.dropWhile (· != 0x0a)) := by rw [hsplit]
    rw [decodeAvailable]
    split
    · next hnil =>
      rw [List.isEmpty_iff] at hnil
      subst hnil
      exact .ok ⟨h, by simp⟩
    · rw [hscan, scan_append]
      split
      · next hrest =>
        -- no line feed: all that is left extends the line
        rw [hrest, except_map_eq_bind]
        refine (agrees_appendLinePart lenientDecode decodeBlock h hpart).bind ?_
        rintro next ⟨mid, evs⟩ ⟨hnext, rfl⟩
        exact .ok ⟨hnext, by simp⟩
      · next b tail hrest =>
        -- the byte behind the line part is a line feed
        have hb : b = 0x0a := by
          have hhead := List.head?_dropWhile_not (fun b : UInt8 => b != 0x0a) bytes
          rw [hrest] at hhead
          simpa using hhead
        have hshort : tail.length < bytes.length := by
          have hle := (dropWhile_suffix (fun b : UInt8 => b != 0x0a) (l := bytes)).length_le
          rw [hrest, length_cons] at hle
          omega
        rw [hrest, hb]
        refine (agrees_appendLinePart lenientDecode decodeBlock h hpart).bind ?_
        rintro withPart ⟨mid, evs⟩ ⟨hpart, rfl⟩
        have hread : (scan decodeBlock mid (0x0a :: tail) >>= fun l => pure (l.1, [] ++ l.2))
            = stepByte decodeBlock mid 0x0a >>= fun r =>
                scan decodeBlock r.1 tail >>= fun l => pure (l.1, r.2.toList ++ l.2) := by
          rw [scan]
          cases stepByte decodeBlock mid 0x0a with
          | error e => rfl
          | ok r =>
            simp only [bind, Except.bind]
            cases scan decodeBlock r.1 tail <;> rfl
        refine Eq.mpr (congrArg _ hread) ?_
        refine (agrees_newline lenientDecode decodeBlock hpart).bind_bind ?_
        rintro ⟨next, decoded⟩ ⟨after, event⟩ ⟨hnext, rfl⟩
        refine Agrees.bind_right (ih tail.length hshort next tail _ hnext rfl) ?_
        rintro ⟨last, all⟩ ⟨final, more⟩ ⟨hlast, hall⟩
        refine .ok ⟨hlast, ?_⟩
        cases decoded <;> simpa using hall

/-- Feeding chunks is reading all their bytes. -/
theorem feedChunks_scan (framer : SseFramer) (chunks : List Bytes)
    (h : framer.Holds s) :
    Agrees jsonDecodeError provider (fun f r => f.1.Holds r.1 ∧ f.2 = r.2)
      (feedChunks jsonDecodeError lenientDecode provider decodeBlock framer chunks)
      (scan decodeBlock s chunks.flatten) := by
  induction chunks generalizing framer s with
  | nil => exact .ok ⟨h, rfl⟩
  | cons chunk rest ih =>
    rw [feedChunks, flatten_cons, scan_append]
    refine (feed_scan lenientDecode decodeBlock framer chunk [] h).bind ?_
    rintro ⟨next, events⟩ ⟨mid, read⟩ ⟨hnext, hevents⟩
    refine (ih next hnext).bind ?_
    rintro ⟨last, more⟩ ⟨final, readMore⟩ ⟨hlast, hmore⟩
    refine .ok ⟨hlast, ?_⟩
    simp only [reverse_nil, nil_append] at hevents hmore
    subst hevents hmore
    rfl

/-- The end of the body. -/
theorem finish_scan (h : framer.Holds s) :
    Agrees jsonDecodeError provider Eq (finishSseFramer decodeBlock framer)
      (finishScan decodeBlock s) := by
  have hopen : ∀ lines : List Bytes,
      Agrees jsonDecodeError provider Eq
        (decodeBlockLines decodeBlock lines >>= fun e => pure (Option.toList none ++ e.toList))
        ((decodeLines decodeBlock lines).map Option.toList) := by
    intro lines
    rw [except_map_eq_bind]
    refine (agrees_decodeLines decodeBlock lines).bind ?_
    rintro e _ rfl
    exact .ok (by simp)
  unfold finishSseFramer finishScan closeBlock
  -- without an open line only the open block is left
  by_cases hchunks : framer.lineChunksRev = []
  · have hline : s.line = [] := by
      rw [← h.line, hchunks]
      rfl
    have hempty : (dropTrailingCarriageReturn []).isEmpty = true := rfl
    rw [if_pos (by simp [hchunks]), hline, if_pos hempty, ← h.lines]
    exact hopen _
  · have hline : completeLine framer = dropTrailingCarriageReturn s.line := by
      rw [completeLine, h.line]
    rw [if_neg (by simpa using hchunks), hline, consumeLine]
    by_cases hempty : (dropTrailingCarriageReturn s.line).isEmpty = true
    · -- the last line ends the block, and nothing is left open
      rw [if_pos hempty, if_pos hempty, except_map_eq_bind, except_map_eq_bind, bind_assoc,
        h.lines]
      refine (agrees_decodeLines decodeBlock s.lines).bind ?_
      rintro e _ rfl
      exact .ok (by simp)
    · rw [if_neg hempty, if_neg hempty]
      have hlines : (dropTrailingCarriageReturn s.line :: framer.blockLinesRev).reverse
          = s.lines ++ [dropTrailingCarriageReturn s.line] := by
        rw [reverse_cons, h.lines]
      rw [← hlines]
      exact hopen _

/-- Framing chunks is reading all their bytes to the end. -/
theorem frameChunks_scan (chunks : List Bytes) :
    Agrees jsonDecodeError provider Eq
      (frameChunks jsonDecodeError lenientDecode provider decodeBlock chunks)
      (scanAll decodeBlock ⟨[], [], 0⟩ chunks.flatten) := by
  unfold frameChunks scanAll
  refine (feedChunks_scan lenientDecode decodeBlock newSseFramer chunks newSseFramer_holds).bind ?_
  rintro ⟨framer, events⟩ ⟨last, read⟩ ⟨hlast, rfl⟩
  refine (finish_scan decodeBlock hlast).bind ?_
  rintro trailing _ rfl
  exact .ok rfl

end Agreement

/-! ### Reading byte by byte finds the blocks -/

section Blocks

variable {η ε : Type} (decodeBlock : Bytes → Except η (Option ε))

/-- A block that is over the limit before its end is over it at its end. -/
theorem runBlocks_limit (raw : Bytes) (rest lines : List Bytes) {size : ℤ}
    (hover : maxSseEventBytes < size + raw.length) :
    runBlocks decodeBlock (groupLines (raw :: rest) lines size) = .error .limit := by
  -- the size only grows until the block ends
  induction rest generalizing raw lines size with
  | nil => rw [groupLines, runBlocks, if_pos hover]
  | cons next rest ih =>
    rw [groupLines]
    · split
      · rw [runBlocks, if_pos (by dsimp only; omega)]
      · exact ih next _ (by omega)
    · simp

theorem groupLines_cons (raw : Bytes) {rest : List Bytes} (hrest : rest ≠ []) (lines : List Bytes)
    (size : ℤ) :
    groupLines (raw :: rest) lines size
      = if (dropTrailingCarriageReturn raw).isEmpty then
          ⟨lines, size + raw.length + 1⟩ :: groupLines rest [] 0
        else groupLines rest (lines ++ [dropTrailingCarriageReturn raw])
          (size + raw.length + 1) := by
  cases rest with
  | nil => exact absurd rfl hrest
  | cons next rest => rfl

theorem scanAll_cons (s : FrameState) (b : UInt8) (bytes : Bytes) :
    scanAll decodeBlock s (b :: bytes)
      = stepByte decodeBlock s b >>= fun r =>
          (scanAll decodeBlock r.1 bytes).map (r.2.toList ++ ·) := by
  unfold scanAll
  rw [scan]
  cases stepByte decodeBlock s b with
  | error e => rfl
  | ok r =>
    simp only [bind, Except.bind]
    cases scan decodeBlock r.1 bytes with
    | error e => rfl
    | ok l =>
      simp only [pure, Except.pure]
      cases finishScan decodeBlock l.1 with
      | error e => rfl
      | ok trailing => simp [Except.map]

/-- What is read to the end of the body from a state, for a block within the limit so far. -/
theorem scanAll_runBlocks (bytes : Bytes) {s : FrameState} (hfits : s.bytes ≤ maxSseEventBytes) :
    scanAll decodeBlock s bytes
      = runBlocks decodeBlock (groupLines ((bytes.splitOn 0x0a).modifyHead (s.line ++ ·)) s.lines
          (s.bytes - s.line.length)) := by
  -- on the bytes, for every open line and open block
  induction bytes generalizing s with
  | nil =>
    have hsize : s.bytes - s.line.length + s.line.length = s.bytes := by omega
    rw [splitOn_nil, modifyHead_cons, List.append_nil, groupLines, runBlocks, hsize,
      if_neg (by dsimp only; omega)]
    simp only [scanAll, scan, finishScan, decodeLines, bind, Except.bind]
    cases decodeBlockLines decodeBlock (closeBlock s.lines s.line) with
    | error e => rfl
    | ok decoded => simp [Except.mapError, Except.map, runBlocks, pure, Except.pure]
  | cons b bytes ih =>
    obtain ⟨raw, rest, hraw⟩ := exists_cons_of_ne_nil (splitOn_ne_nil 0x0a bytes)
    rw [scanAll_cons, splitOn_cons_eq_if_modifyHead, stepByte]
    by_cases hb : b = 0x0a
    · -- a line feed: the line either ends the block or joins it
      subst hb
      have hsize : s.bytes - s.line.length + s.line.length + 1 = s.bytes + 1 := by omega
      have hfeed : ((0x0a : UInt8) == 0x0a) = true := rfl
      rw [if_pos hfeed, modifyHead_cons, List.append_nil,
        groupLines_cons _ (splitOn_ne_nil _ _), hsize]
      by_cases hover : maxSseEventBytes < s.bytes + 1
      · rw [if_pos hover]
        by_cases hempty : (dropTrailingCarriageReturn s.line).isEmpty = true
        · rw [if_pos hempty, runBlocks, if_pos hover]
          rfl
        · rw [if_neg hempty, hraw, runBlocks_limit decodeBlock raw rest _ (by omega)]
          rfl
      · rw [if_neg hover, if_pos rfl]
        have hid : (bytes.splitOn 0x0a).modifyHead (fun x => [] ++ x) = bytes.splitOn 0x0a := by
          rw [hraw]
          rfl
        by_cases hempty : (dropTrailingCarriageReturn s.line).isEmpty = true
        · rw [if_pos hempty, if_pos hempty, runBlocks, if_neg hover, decodeLines]
          have hnext := @ih ⟨[], [], 0⟩ (by decide)
          simp only [length_nil, Int.natCast_zero, Int.sub_zero, hid] at hnext
          cases decodeBlockLines decodeBlock s.lines with
          | error e => rfl
          | ok decoded =>
            simp only [Except.mapError, Except.map, bind, Except.bind]
            rw [← hnext]
        · rw [if_neg hempty, if_neg hempty]
          have hnext := @ih ⟨[], s.lines ++ [dropTrailingCarriageReturn s.line], s.bytes + 1⟩
            (by dsimp only; omega)
          simp only [length_nil, Int.natCast_zero, Int.sub_zero, hid] at hnext
          rw [← hnext]
          simp only [bind, Except.bind]
          cases scanAll decodeBlock _ bytes <;> rfl
    · -- another byte joins the line
      have hother : ¬((b == 0x0a) = true) := by simpa using hb
      rw [if_neg hb, if_neg hother, hraw, modifyHead_cons, modifyHead_cons]
      by_cases hover : maxSseEventBytes < s.bytes + 1
      · rw [if_pos hover, runBlocks_limit decodeBlock _ rest _ (by
          rw [length_append, length_cons]
          push_cast
          omega)]
        rfl
      · rw [if_neg hover]
        have hnext := @ih ⟨s.line ++ [b], s.lines, s.bytes + 1⟩ (by dsimp only; omega)
        have hsize : s.bytes + 1 - ((s.line ++ [b]).length : ℤ) = s.bytes - s.line.length := by
          rw [length_append, length_singleton]
          push_cast
          omega
        rw [hraw, modifyHead_cons, hsize, append_assoc, singleton_append] at hnext
        rw [← hnext]
        simp only [bind, Except.bind]
        cases scanAll decodeBlock _ bytes <;> rfl

/-- Framing chunks means running the blocks of their bytes. -/
theorem frameChunks_runBlocks (jsonDecodeError : Text → Text → η) (lenientDecode : Bytes → Text)
    (provider : Text) (chunks : List Bytes) :
    Agrees jsonDecodeError provider Eq
      (frameChunks jsonDecodeError lenientDecode provider decodeBlock chunks)
      (runBlocks decodeBlock (wireBlocks chunks.flatten)) := by
  have hread := scanAll_runBlocks decodeBlock chunks.flatten (s := ⟨[], [], 0⟩) (by decide)
  have hid : (chunks.flatten.splitOn 0x0a).modifyHead (fun x => [] ++ x)
      = chunks.flatten.splitOn 0x0a := by
    cases chunks.flatten.splitOn 0x0a <;> rfl
  simp only [length_nil, Int.natCast_zero, Int.sub_zero, hid] at hread
  rw [wireBlocks, ← hread]
  exact frameChunks_scan lenientDecode decodeBlock chunks

/-! ### The blocks are the maximal runs of non-empty lines -/

/-- The non-empty blocks among the grouped lines are the runs of the lines, the first run behind the
lines of the open block. -/
theorem groupLines_runs (raws lines : List Bytes) (size : ℤ) :
    ((groupLines raws lines size).map (·.lines)).filter (fun run => !run.isEmpty)
      = (((raws.map dropTrailingCarriageReturn).splitOnP List.isEmpty).modifyHead
          (lines ++ ·)).filter (fun run => !run.isEmpty) := by
  induction raws generalizing lines size with
  | nil => simp [groupLines]
  | cons raw rest ih =>
    rw [map_cons, splitOnP_cons_eq_if_modifyHead]
    obtain ⟨run, runs, hruns⟩ := exists_cons_of_ne_nil
      (splitOnP_ne_nil List.isEmpty (rest.map dropTrailingCarriageReturn))
    -- the last line closes its block, with or without text
    by_cases hrest : rest = []
    · subst hrest
      rw [groupLines, closeBlock]
      split <;> simp [filter_cons]
    · rw [groupLines_cons raw hrest]
      split
      · rw [map_cons, modifyHead_cons, List.append_nil, filter_cons,
          filter_cons, ih [] 0, hruns]
        simp
      · rw [ih, hruns]
        simp

/-- The decoder sees the non-empty blocks. -/
theorem sseBlocks_eq (bytes : Bytes) :
    sseBlocks bytes = ((((wireBlocks bytes).map (·.lines)).filter fun run => !run.isEmpty).map
      (List.intercalate [0x0a])) := by
  rw [wireBlocks, groupLines_runs, sseBlocks, maximalRuns]
  cases ((bytes.splitOn 0x0a).map dropTrailingCarriageReturn).splitOnP List.isEmpty <;> simp

theorem runBlocks_cons_ok_iff (block : WireBlock) (rest : List WireBlock) (events : List ε) :
    runBlocks decodeBlock (block :: rest) = .ok events
      ↔ block.size ≤ maxSseEventBytes ∧
        ∃ decoded, decodeBlockLines decodeBlock block.lines = .ok decoded ∧
          ∃ more, runBlocks decodeBlock rest = .ok more ∧ events = decoded.toList ++ more := by
  rw [runBlocks]
  by_cases hover : maxSseEventBytes < block.size
  · simp only [if_pos hover, reduceCtorEq, false_iff, not_and]
    omega
  · rw [if_neg hover]
    cases decodeBlockLines decodeBlock block.lines with
    | error e => simp
    | ok decoded =>
      cases runBlocks decodeBlock rest with
      | error e => simp [Except.map]
      | ok more =>
        simp only [Except.map, Except.ok.injEq, exists_eq_left', eq_comm]
        exact ⟨fun h => ⟨by omega, h⟩, fun h => h.2⟩

/-- Decoding the non-empty blocks of a list, one block at a time. -/
theorem mapM_filter_cons (block : WireBlock) (rest : List WireBlock) (events : List ε) :
    (∃ results, (((((block :: rest).map (·.lines)).filter fun run => !run.isEmpty).map
        (List.intercalate [0x0a])).mapM decodeBlock) = .ok results ∧ events = results.filterMap id)
      ↔ ∃ decoded, decodeBlockLines decodeBlock block.lines = .ok decoded ∧
          ∃ more, ((((rest.map (·.lines)).filter fun run => !run.isEmpty).map
              (List.intercalate [0x0a])).mapM decodeBlock) = .ok more ∧
            events = decoded.toList ++ more.filterMap id := by
  rw [map_cons, filter_cons]
  -- an empty block is not decoded, and gives no event
  cases hlines : block.lines with
  | nil =>
    have hdecoded : decodeBlockLines decodeBlock [] = .ok none := rfl
    simp [hdecoded]
  | cons line lines =>
    have hdecode : decodeBlockLines decodeBlock (line :: lines)
        = decodeBlock (List.intercalate [0x0a] (line :: lines)) := rfl
    rw [hdecode, if_pos (by rfl), map_cons, mapM_cons]
    cases decodeBlock (List.intercalate [0x0a] (line :: lines)) with
    | error e => simp [bind, Except.bind]
    | ok decoded =>
      simp only [bind, Except.bind, Except.ok.injEq, exists_eq_left']
      generalize List.mapM decodeBlock _ = decodedRest
      cases decodedRest with
      | error e => simp
      | ok more => cases decoded <;> simp [pure, Except.pure]

/-- The run of a body succeeds when no block is over the limit and the decoder accepts each of them,
and gives the decoder's results. -/
theorem runBlocks_ok_iff (blocks : List WireBlock) (events : List ε) :
    runBlocks decodeBlock blocks = .ok events
      ↔ (∀ block ∈ blocks, block.size ≤ maxSseEventBytes) ∧
        ∃ results, ((((blocks.map (·.lines)).filter fun run => !run.isEmpty).map
            (List.intercalate [0x0a])).mapM decodeBlock) = .ok results ∧
          events = results.filterMap id := by
  induction blocks generalizing events with
  | nil =>
    simp [runBlocks, pure, Except.pure, eq_comm]
  | cons block rest ih =>
    rw [runBlocks_cons_ok_iff, forall_mem_cons, and_assoc, mapM_filter_cons]
    refine and_congr_right fun _ => ?_
    simp only [ih]
    constructor
    · rintro ⟨decoded, hdecoded, more, ⟨hsizes, results, hresults, rfl⟩, hevents⟩
      exact ⟨hsizes, decoded, hdecoded, results, hresults, hevents⟩
    · rintro ⟨hsizes, decoded, hdecoded, results, hresults, hevents⟩
      exact ⟨decoded, hdecoded, _, ⟨hsizes, results, hresults, rfl⟩, hevents⟩

/-- A failing run fails at the first block that is over the limit or rejected. -/
theorem runBlocks_error {blocks : List WireBlock} {failure : SseFailure η}
    (h : runBlocks (ε := ε) decodeBlock blocks = .error failure) :
    ∃ before block after, blocks = before ++ block :: after ∧
      (∀ earlier ∈ before, earlier.size ≤ maxSseEventBytes ∧
        ∃ decoded, decodeBlockLines decodeBlock earlier.lines = .ok decoded) ∧
      ((failure = .limit ∧ maxSseEventBytes < block.size) ∨
        ∃ e, failure = .decoder e ∧ block.size ≤ maxSseEventBytes ∧
          decodeBlockLines decodeBlock block.lines = .error e) := by
  induction blocks with
  | nil => simp [runBlocks] at h
  | cons block rest ih =>
    rw [runBlocks] at h
    -- either this block fails, or a later one
    split at h
    · next hover =>
      cases h
      exact ⟨[], block, rest, rfl, by simp, .inl ⟨rfl, hover⟩⟩
    · next hfits =>
      split at h
      · next e hrejected =>
        cases h
        exact ⟨[], block, rest, rfl, by simp, .inr ⟨e, rfl, by omega, hrejected⟩⟩
      · next decoded hdecoded =>
        have hrest : runBlocks (ε := ε) decodeBlock rest = .error failure := by
          cases hrun : runBlocks decodeBlock rest with
          | error e =>
            rw [hrun] at h
            exact h
          | ok events =>
            rw [hrun] at h
            cases h
        obtain ⟨before, failing, after, hsplit, hbefore, hfailing⟩ := ih hrest
        refine ⟨block :: before, failing, after, by rw [hsplit, cons_append], ?_, hfailing⟩
        intro earlier hearlier
        rcases mem_cons.mp hearlier with rfl | hmem
        · exact ⟨by omega, decoded, hdecoded⟩
        · exact hbefore earlier hmem

/-- **Framing does not depend on chunk boundaries.**  However a body is cut, framing it succeeds as
framing the whole does, with the same events: what the decoder gives for each maximal run of
non-empty lines.  A failure is the first block, in wire order, that is over the size limit or that
the decoder rejects. -/
theorem sse_framing_independent_of_chunks (jsonDecodeError : Text → Text → η)
    (lenientDecode : Bytes → Text) (provider : Text) (chunks : List Bytes) :
    (∀ events,
      frameChunks jsonDecodeError lenientDecode provider decodeBlock chunks = .ok events
        ↔ frameChunks jsonDecodeError lenientDecode provider decodeBlock [chunks.flatten]
            = .ok events) ∧
    (∀ events,
      frameChunks jsonDecodeError lenientDecode provider decodeBlock chunks = .ok events
        ↔ (∀ block ∈ wireBlocks chunks.flatten, block.size ≤ maxSseEventBytes) ∧
          ∃ results, (sseBlocks chunks.flatten).mapM decodeBlock = .ok results ∧
            events = results.filterMap id) ∧
    (∀ e,
      frameChunks jsonDecodeError lenientDecode provider decodeBlock chunks = .error e →
        ∃ before block after, wireBlocks chunks.flatten = before ++ block :: after ∧
          (∀ earlier ∈ before, earlier.size ≤ maxSseEventBytes ∧
            ∃ decoded, decodeBlockLines decodeBlock earlier.lines = .ok decoded) ∧
          ((maxSseEventBytes < block.size ∧
              ∃ preview, e = sseLimitError jsonDecodeError provider preview) ∨
            (block.size ≤ maxSseEventBytes ∧
              decodeBlockLines decodeBlock block.lines = .error e))) ∧
    sseBlocks chunks.flatten
      = (((wireBlocks chunks.flatten).map (·.lines)).filter fun run => !run.isEmpty).map
          (List.intercalate [0x0a]) := by
  have hagrees := frameChunks_runBlocks decodeBlock jsonDecodeError lenientDecode provider chunks
  have hwhole := frameChunks_runBlocks decodeBlock jsonDecodeError lenientDecode provider
    [chunks.flatten]
  have hsame : [chunks.flatten].flatten = chunks.flatten := by simp
  rw [hsame] at hwhole
  refine ⟨fun events => ?_, fun events => ?_, fun e he => ?_, sseBlocks_eq chunks.flatten⟩
  · rw [hagrees.ok_iff, hwhole.ok_iff]
  · rw [hagrees.ok_iff, runBlocks_ok_iff, sseBlocks_eq]
  · rw [he] at hagrees
    generalize hrun : runBlocks decodeBlock (wireBlocks chunks.flatten) = meaning at hagrees
    cases hagrees with
    | limit preview =>
      obtain ⟨before, block, after, hsplit, hbefore, ⟨-, hover⟩ | ⟨e', he', -⟩⟩ :=
        runBlocks_error decodeBlock hrun
      · exact ⟨before, block, after, hsplit, hbefore, .inl ⟨hover, preview, rfl⟩⟩
      · cases he'
    | decoder _ =>
      obtain ⟨before, block, after, hsplit, hbefore, ⟨he', -⟩ | ⟨e', he', hfits, hrejected⟩⟩ :=
        runBlocks_error decodeBlock hrun
      · cases he'
      · cases he'
        exact ⟨before, block, after, hsplit, hbefore, .inr ⟨hfits, hrejected⟩⟩

end Blocks

/-! ### The Responses decoder -/

section Responses

variable {η ε : Type} (jsonDecodeError : Text → Text → η) (lenientDecode : Bytes → Text)
  (parseBlockBytes : Bytes → Except η (Option ε))

def feedSseDecoder (decoder : SseFramer) (chunk : Bytes) : Except η (SseFramer × List ε) :=
  feedSseFramer jsonDecodeError lenientDecode "Responses".toList parseBlockBytes decoder chunk

def finishSseDecoder (decoder : SseFramer) : Except η (List ε) :=
  finishSseFramer parseBlockBytes decoder

/-- Decode a complete body. -/
def parseSseEventsBytes (bytes : Bytes) : Except η (List ε) := do
  let (decoder, events) ← feedSseDecoder jsonDecodeError lenientDecode parseBlockBytes newSseFramer
    bytes
  let trailing ← finishSseDecoder parseBlockBytes decoder
  pure (events ++ trailing)

/-- A body that is streamed decodes as the complete body does. -/
theorem parseSseEventsBytes_ok_iff (chunks : List Bytes) (events : List ε) :
    parseSseEventsBytes jsonDecodeError lenientDecode parseBlockBytes chunks.flatten = .ok events
      ↔ frameChunks jsonDecodeError lenientDecode "Responses".toList parseBlockBytes chunks
          = .ok events := by
  have hone : parseSseEventsBytes jsonDecodeError lenientDecode parseBlockBytes chunks.flatten
      = frameChunks jsonDecodeError lenientDecode "Responses".toList parseBlockBytes
          [chunks.flatten] := by
    unfold parseSseEventsBytes frameChunks feedChunks feedChunks feedSseDecoder finishSseDecoder
    cases feedSseFramer jsonDecodeError lenientDecode "Responses".toList parseBlockBytes
      newSseFramer chunks.flatten with
    | error e => rfl
    | ok r => simp [bind, Except.bind, pure, Except.pure]
  have hagrees := frameChunks_runBlocks parseBlockBytes jsonDecodeError lenientDecode
    "Responses".toList
  have hsame : [chunks.flatten].flatten = chunks.flatten := by simp
  rw [hone, (hagrees chunks).ok_iff, (hagrees [chunks.flatten]).ok_iff, hsame]

end Responses

end HaskellAgent
