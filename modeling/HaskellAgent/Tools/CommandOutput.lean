import HaskellAgent.Loop.Input
import HaskellAgent.Sessions.Framing
import HaskellAgent.Lib.Utf8
import Mathlib.Algebra.BigOperators.Group.List.Basic
import Mathlib.Data.List.Induction

/-!
# The output of a command

The output of a process is read in chunks.  Its beginning is captured up to a cap, and what does not
fit goes to an artifact with all that came before; its end is kept for readers that poll it with a
cursor.

What the file system answers comes with the run: whether the artifact can be opened, which writes
succeed, and what is on disk once it is closed.  The decoder of bytes is a parameter.
-/

open List

namespace HaskellAgent
namespace CommandOutput

open Framing

/-! ### Capturing -/

structure CapturedBytes where
  capturedBytes : Bytes
  capturedDropped : ℕ
  deriving DecidableEq

def emptyCapturedBytes : CapturedBytes := ⟨[], 0⟩

def appendCapturedBytes (cap : ℤ) (chunk : Bytes) (captured : CapturedBytes) : CapturedBytes :=
  if chunk.isEmpty then captured
  else if cap ≤ 0 then { captured with capturedBytes := captured.capturedBytes ++ chunk }
  else
    let remaining := (cap - captured.capturedBytes.length).toNat
    let kept := chunk.take remaining
    ⟨captured.capturedBytes ++ kept, captured.capturedDropped + chunk.length - kept.length⟩

/-- The state of a writer, with the bytes that were put into its handle. -/
structure WriterState where
  writerHandle : Bool
  writerObserved : ℕ
  writerStored : ℕ
  writerFailure : Bool
  written : Bytes

structure OutputArtifact where
  artifactContents : Option Bytes
  artifactObservedBytes : ℕ
  artifactStoredBytes : ℕ
  artifactTruncated : Bool

/-- The answers of the file system.  Of the bytes that were put into a handle, `close` tells whether
closing it succeeds and what is in the file then. -/
structure ArtifactIo where
  opens : Bool
  puts : ℕ → Bool
  close : Bytes → Bool × Option Bytes

structure DrainedOutput where
  drainedCaptured : CapturedBytes
  drainedArtifact : Option OutputArtifact

section Drain

variable (io : ArtifactIo) (cap : ℤ) (artifactCap : ℕ)

def appendOutputArtifact (put : Bool) (state : WriterState) (bytes : Bytes) : WriterState × Bool :=
  if state.writerFailure then
    ({ state with writerObserved := state.writerObserved + bytes.length }, false)
  else if !state.writerHandle then (state, false)
  else
    let storedChunk := bytes.take (artifactCap - state.writerStored)
    let next := { state with
      writerObserved := state.writerObserved + bytes.length
      writerStored := state.writerStored + storedChunk.length }
    if storedChunk.isEmpty || put then
      ({ next with written := state.written ++ storedChunk }, true)
    else ({ next with writerFailure := true }, false)

def finishOutputArtifact (state : WriterState) : OutputArtifact :=
  let closed := !state.writerHandle || (io.close state.written).1
  let contents := (io.close state.written).2
  let stored := (contents.map List.length).getD 0
  let failure := state.writerFailure || !closed || contents.isNone || stored != state.writerStored
  ⟨contents, state.writerObserved, stored, state.writerObserved != stored || failure⟩

/-- The writer and whether there will be none any more; an artifact that cannot be written is
aborted. -/
def spillChunk (number : ℕ) (writer : Option WriterState) (disabled : Bool) (before : CapturedBytes)
    (chunk : Bytes) : Option WriterState × Bool :=
  match writer with
  | some state =>
    let appended := appendOutputArtifact artifactCap (io.puts number) state chunk
    if appended.2 then (some appended.1, disabled) else (none, true)
  | none =>
    if disabled then (none, true)
    else if cap ≤ 0 ∨ (before.capturedBytes.length + chunk.length : ℤ) ≤ cap then (none, false)
    else if io.opens then
      let appended := appendOutputArtifact artifactCap (io.puts number) ⟨true, 0, 0, false, []⟩
        (before.capturedBytes ++ chunk)
      if appended.2 then (some appended.1, false) else (none, true)
    else (none, true)

def drainFrom : ℕ → Option WriterState → Bool → CapturedBytes → List Bytes → DrainedOutput
  | _, writer, _, captured, [] => ⟨captured, writer.map (finishOutputArtifact io)⟩
  | number, writer, disabled, before, chunk :: chunks =>
    let spilled := spillChunk io cap artifactCap number writer disabled before chunk
    drainFrom (number + 1) spilled.1 spilled.2 (appendCapturedBytes cap chunk before) chunks

/-- The reads of a handle, up to its end. -/
def drainHandle (reads : List Bytes) : DrainedOutput :=
  drainFrom io cap artifactCap 0 none false emptyCapturedBytes reads

/-- What is captured of a stream. -/
def capture (stream : Bytes) : CapturedBytes :=
  if cap ≤ 0 then ⟨stream, 0⟩ else ⟨stream.take cap.toNat, stream.length - cap.toNat⟩

/-- The writer that has seen a stream. -/
def spilled (stream : Bytes) : WriterState :=
  ⟨true, stream.length, (stream.take artifactCap).length, false, stream.take artifactCap⟩

/-- The state of the loop behind a part of the stream. -/
structure Drains (stream : Bytes) (writer : Option WriterState) (disabled : Bool) : Prop where
  wrote : ∀ state ∈ writer, state = spilled artifactCap stream
  whole : writer = none → disabled = false → (capture cap stream).capturedBytes = stream

variable {io cap artifactCap}

theorem appendCapturedBytes_capture (stream chunk : Bytes) :
    appendCapturedBytes cap chunk (capture cap stream) = capture cap (stream ++ chunk) := by
  rw [appendCapturedBytes]
  by_cases hchunk : chunk = []
  · simp [hchunk]
  · rw [if_neg (by simpa using hchunk), capture, capture]
    by_cases hcap : cap ≤ 0
    · simp [hcap]
    · rw [if_neg hcap, if_neg hcap, if_neg hcap]
      have hremaining :
          (cap - (stream.take cap.toNat).length).toNat = cap.toNat - stream.length := by
        rw [length_take]
        omega
      dsimp only
      rw [hremaining, take_append]
      congr 1
      rw [length_append, length_take]
      omega

theorem spilled_nil : spilled artifactCap [] = ⟨true, 0, 0, false, []⟩ := by simp [spilled]

theorem appendOutputArtifact_spilled {put : Bool} {stream chunk : Bytes}
    (h : (appendOutputArtifact artifactCap put (spilled artifactCap stream) chunk).2 = true) :
    (appendOutputArtifact artifactCap put (spilled artifactCap stream) chunk).1
      = spilled artifactCap (stream ++ chunk) := by
  have hremaining :
      artifactCap - (stream.take artifactCap).length = artifactCap - stream.length := by
    rw [length_take]
    omega
  have hstored : (stream ++ chunk).take artifactCap = stream.take artifactCap ++
      chunk.take (artifactCap - (stream.take artifactCap).length) := by
    rw [hremaining, take_append]
  by_cases hput :
      ((chunk.take (artifactCap - (stream.take artifactCap).length)).isEmpty || put) = true
  · have happended : appendOutputArtifact artifactCap put (spilled artifactCap stream) chunk =
        ({ spilled artifactCap stream with
            writerObserved := stream.length + chunk.length
            writerStored := (stream.take artifactCap).length +
              (chunk.take (artifactCap - (stream.take artifactCap).length)).length
            written := stream.take artifactCap ++
              chunk.take (artifactCap - (stream.take artifactCap).length) }, true) := if_pos hput
    rw [happended, spilled, spilled, hstored, length_append, length_append]
  · have happended :
        (appendOutputArtifact artifactCap put (spilled artifactCap stream) chunk).2 = false :=
      congrArg Prod.snd (if_neg hput)
    rw [happended] at h
    cases h

theorem Drains.goes_on {stream : Bytes} {disabled : Bool} :
    Drains cap artifactCap stream (some (spilled artifactCap stream)) disabled :=
  ⟨fun _ hstate => (Option.some.inj hstate).symm, fun hnone => (by cases hnone)⟩

theorem Drains.disabled {stream : Bytes} : Drains cap artifactCap stream none true :=
  ⟨fun _ hstate => (by cases hstate), fun _ hdisabled => (by cases hdisabled)⟩

theorem Drains.step {stream : Bytes} {writer : Option WriterState} {disabled : Bool}
    (h : Drains cap artifactCap stream writer disabled) (number : ℕ)
    (chunk : Bytes) :
    let next := spillChunk io cap artifactCap number writer disabled (capture cap stream) chunk
    Drains cap artifactCap (stream ++ chunk) next.1 next.2 := by
  intro next
  cases writer with
  | some state =>
    obtain rfl := h.wrote state rfl
    by_cases hput : (appendOutputArtifact artifactCap (io.puts number)
        (spilled artifactCap stream) chunk).2 = true
    · have hnext : next = (some (spilled artifactCap (stream ++ chunk)), disabled) := by
        rw [← appendOutputArtifact_spilled hput]
        exact if_pos hput
      exact hnext ▸ .goes_on
    · have hnext : next = (none, true) := if_neg hput
      exact hnext ▸ .disabled
  | none =>
    cases disabled with
    | true => exact .disabled
    | false =>
      have hwhole := h.whole rfl rfl
      by_cases hfits :
          cap ≤ 0 ∨ ((capture cap stream).capturedBytes.length + chunk.length : ℤ) ≤ cap
      · have hnext : next = (none, false) := if_pos hfits
        rw [hnext]
        refine ⟨fun state hstate => (by cases hstate), fun _ _ => ?_⟩
        rw [hwhole] at hfits
        rw [capture]
        split_ifs with hcap
        · rfl
        · exact take_of_length_le (by rw [length_append]; omega)
      · have hspill : next = if io.opens then
            let appended := appendOutputArtifact artifactCap (io.puts number)
              ⟨true, 0, 0, false, []⟩ ((capture cap stream).capturedBytes ++ chunk)
            if appended.2 then (some appended.1, false) else (none, true)
          else (none, true) := if_neg hfits
        rw [hwhole, ← spilled_nil] at hspill
        by_cases hopens : io.opens = true
        · rw [if_pos hopens] at hspill
          by_cases hput : (appendOutputArtifact artifactCap (io.puts number)
              (spilled artifactCap []) (stream ++ chunk)).2 = true
          · have hnext : next = (some (spilled artifactCap (stream ++ chunk)), false) := by
              rw [hspill, ← nil_append (stream ++ chunk), ← appendOutputArtifact_spilled hput]
              exact if_pos hput
            exact hnext ▸ .goes_on
          · have hnext : next = (none, true) := hspill.trans (if_neg hput)
            exact hnext ▸ .disabled
        · have hnext : next = (none, true) := hspill.trans (if_neg hopens)
          exact hnext ▸ .disabled

theorem Drains.run (reads : List Bytes) {stream : Bytes} {writer : Option WriterState}
    {disabled : Bool} (h : Drains cap artifactCap stream writer disabled) (number : ℕ) :
    let drained := drainFrom io cap artifactCap number writer disabled (capture cap stream) reads
    drained.drainedCaptured = capture cap (stream ++ reads.flatten) ∧
      ∀ artifact ∈ drained.drainedArtifact,
        artifact = finishOutputArtifact io (spilled artifactCap (stream ++ reads.flatten)) := by
  induction reads generalizing stream writer disabled number with
  | nil =>
    rw [flatten_nil, List.append_nil]
    refine ⟨rfl, fun artifact hartifact => ?_⟩
    obtain ⟨state, hstate, rfl⟩ := Option.map_eq_some_iff.mp hartifact
    rw [h.wrote state hstate]
  | cons chunk reads ih =>
    rw [drainFrom, appendCapturedBytes_capture, flatten_cons, ← append_assoc]
    exact ih (h.step number chunk) (number + 1)

/-- What is left of a stream, with a cap on the capture and without one, and with an artifact whose
file is closed without an error or with one. -/
theorem drainHandle_outcome (io : ArtifactIo) (cap : ℤ) (artifactCap : ℕ) (reads : List Bytes) :
    let drained := drainHandle io cap artifactCap reads
    let stream := reads.flatten
    (∀ artifact ∈ drained.drainedArtifact, artifact.artifactObservedBytes = stream.length ∧
      (io.close (stream.take artifactCap) = (true, some (stream.take artifactCap)) →
        artifact.artifactContents = some (stream.take artifactCap) ∧
        artifact.artifactStoredBytes = min artifactCap stream.length ∧
        (artifact.artifactTruncated = true ↔ artifactCap < stream.length)) ∧
      (artifact.artifactTruncated = false → artifact.artifactStoredBytes = stream.length)) ∧
    drained.drainedCaptured =
      if cap ≤ 0 then ⟨stream, 0⟩ else ⟨stream.take cap.toNat, (stream.drop cap.toNat).length⟩ := by
  have hempty : emptyCapturedBytes = capture cap [] := by simp [emptyCapturedBytes, capture]
  have hinitial : Drains cap artifactCap [] none false :=
    ⟨fun state hstate => (by cases hstate), fun _ _ => hempty ▸ rfl⟩
  obtain ⟨hcaptured, hartifact⟩ := @Drains.run io _ _ reads _ _ _ hinitial 0
  rw [nil_append, ← hempty] at hcaptured hartifact
  refine ⟨fun artifact hmem => ?_, ?_⟩
  · obtain rfl := hartifact artifact hmem
    refine ⟨rfl, fun hclose => ?_, fun htruncated => ?_⟩
    · simp [finishOutputArtifact, spilled, hclose, length_take]
    · simp only [finishOutputArtifact, spilled, Bool.or_eq_false_iff,
        bne_eq_false_iff_eq] at htruncated
      exact htruncated.1.symm
  · rw [drainHandle, hcaptured, capture, length_drop]

/-- Without a cap everything is captured. -/
theorem not_drainHandle_uncapped :
    ¬ ∀ (io : ArtifactIo) (cap : ℤ) (artifactCap : ℕ) (reads : List Bytes),
    (drainHandle io cap artifactCap reads).drainedArtifact = none →
      (drainHandle io cap artifactCap reads).drainedCaptured.capturedBytes
        = reads.flatten.take cap.toNat := by
  intro h
  exact absurd (h ⟨true, fun _ => true, fun bytes => (true, some bytes)⟩ 0 0 [[1]] rfl) (by decide)

end Drain

/-! ### Polling -/

structure RecentBytes where
  recentBytes : Bytes
  recentDropped : ℕ
  deriving DecidableEq

def appendRecentBytes (cap : ℤ) (chunk : Bytes) (recent : RecentBytes) : RecentBytes :=
  if chunk.isEmpty then recent
  else if cap ≤ 0 then { recent with recentBytes := recent.recentBytes ++ chunk }
  else
    let combined := recent.recentBytes ++ chunk
    let overflow := (combined.length - cap).toNat
    ⟨combined.drop overflow, recent.recentDropped + overflow⟩

def truncationMarker (dropped : ℕ) : Text :=
  if dropped = 0 then []
  else "...[truncated ".toList ++ Nat.toDigits 10 dropped ++ " bytes]\n".toList

/-- What a poll reports: the bytes that were missed, and the bytes behind them. -/
structure Report where
  missed : ℕ
  bytes : Bytes

def reportSince (cursor : ℕ) (recent : RecentBytes) : Report :=
  let retainedFrom := recent.recentDropped
  let offset := min recent.recentBytes.length (cursor - retainedFrom)
  ⟨retainedFrom - cursor, recent.recentBytes.drop offset⟩

/-- The two streams of a command. -/
structure Streams (α : Type) where
  stdout : α
  stderr : α

section Poll

variable (decode : Bytes → Text) (cap : ℤ)

def Report.text (report : Report) : Text := truncationMarker report.missed ++ decode report.bytes

def renderRecentBytesSince (cursor : ℕ) (recent : RecentBytes) : Text × ℕ :=
  ((reportSince cursor recent).text decode, recent.recentDropped + recent.recentBytes.length)

def runningOutputSince (recent : Streams RecentBytes) (cursor : Streams ℕ) :
    Streams Text × Streams ℕ :=
  let out := renderRecentBytesSince decode cursor.stdout recent.stdout
  let err := renderRecentBytesSince decode cursor.stderr recent.stderr
  (⟨out.1, err.1⟩, ⟨out.2, err.2⟩)

inductive OutputEvent
  | stdout (chunk : Bytes)
  | stderr (chunk : Bytes)
  | poll

/-- A stream with its cursor: what has been produced, and what the polls reported and showed. -/
structure Polled where
  recent : RecentBytes
  cursor : ℕ
  produced : Bytes
  reports : List Report
  texts : List Text

def Polled.read (w : Polled) (chunk : Bytes) : Polled :=
  { w with recent := appendRecentBytes cap chunk w.recent, produced := w.produced ++ chunk }

def Polled.show (w : Polled) (text : Text) (cursor : ℕ) : Polled :=
  { w with
    cursor := cursor
    reports := w.reports ++ [reportSince w.cursor w.recent]
    texts := w.texts ++ [text] }

def outputStep (w : Streams Polled) : OutputEvent → Streams Polled
  | .stdout chunk => { w with stdout := w.stdout.read cap chunk }
  | .stderr chunk => { w with stderr := w.stderr.read cap chunk }
  | .poll =>
    let polled := runningOutputSince decode ⟨w.stdout.recent, w.stderr.recent⟩
      ⟨w.stdout.cursor, w.stderr.cursor⟩
    ⟨w.stdout.show polled.1.stdout polled.2.stdout, w.stderr.show polled.1.stderr polled.2.stderr⟩

/-- A run of the command with its polls, from the initial cursor. -/
def outputRun (events : List OutputEvent) : Streams Polled :=
  events.foldl (outputStep decode cap) ⟨⟨⟨[], 0⟩, 0, [], [], []⟩, ⟨⟨[], 0⟩, 0, [], [], []⟩⟩

/-- The reports are consecutive pieces of the stream, less what was missed. -/
def Pieces (reports : List Report) (stream : Bytes) : Prop :=
  ∃ gaps : List Bytes, gaps.map List.length = reports.map Report.missed ∧
    (List.zipWith (· ++ ·) gaps (reports.map Report.bytes)).flatten = stream

structure Polled.Sound (w : Polled) : Prop where
  dropped : w.recent.recentDropped ≤ w.produced.length
  recent : w.recent.recentBytes = w.produced.drop w.recent.recentDropped
  cursor : w.cursor ≤ w.produced.length
  texts : w.texts = w.reports.map (Report.text decode)
  pieces : Pieces w.reports (w.produced.take w.cursor)

/-- Decoding goes on behind the bytes as from the start: they do not end inside a character. -/
def AtBoundary (bytes : Bytes) : Prop :=
  ∀ rest, decode (bytes ++ rest) = decode bytes ++ decode rest

variable {decode cap}

theorem Polled.Sound.read {w : Polled} (h : w.Sound decode) (chunk : Bytes) :
    (w.read cap chunk).Sound decode := by
  have hcombined : w.recent.recentBytes ++ chunk
      = (w.produced ++ chunk).drop w.recent.recentDropped := by
    rw [h.recent, drop_append_of_le_length h.dropped]
  have hgrown : w.produced.length ≤ (w.produced ++ chunk).length := by simp
  have hread : ∃ overflow, overflow ≤ (w.recent.recentBytes ++ chunk).length ∧
      appendRecentBytes cap chunk w.recent
        = ⟨(w.recent.recentBytes ++ chunk).drop overflow, w.recent.recentDropped + overflow⟩ := by
    rw [appendRecentBytes]
    split_ifs with hchunk
    · exact ⟨0, Nat.zero_le _, by simp [List.isEmpty_iff.mp hchunk]⟩
    · exact ⟨0, Nat.zero_le _, rfl⟩
    · exact ⟨_, by omega, rfl⟩
  obtain ⟨overflow, hle, happended⟩ := hread
  rw [hcombined, length_drop] at hle
  refine ⟨?_, ?_, h.cursor.trans hgrown, h.texts, ?_⟩
  · rw [Polled.read, happended]
    dsimp only
    have := h.dropped
    omega
  · rw [Polled.read, happended, hcombined]
    exact drop_drop
  · rw [Polled.read]
    dsimp only
    rw [take_append_of_le_length h.cursor]
    exact h.pieces

/-- A poll reports what was produced since the last one, less what is dropped already. -/
theorem reportSince_spec {w : Polled} (h : w.Sound decode) :
    let report := reportSince w.cursor w.recent
    (w.produced.drop w.cursor).take report.missed ++ report.bytes = w.produced.drop w.cursor ∧
      ((w.produced.drop w.cursor).take report.missed).length = report.missed := by
  have hdropped := h.dropped
  have hcursor := h.cursor
  have hbytes : w.recent.recentBytes.drop
      (min w.recent.recentBytes.length (w.cursor - w.recent.recentDropped))
        = (w.produced.drop w.cursor).drop (w.recent.recentDropped - w.cursor) := by
    rw [h.recent, drop_drop, drop_drop, length_drop]
    congr 1
    omega
  rw [reportSince]
  dsimp only
  rw [hbytes, take_append_drop, length_take, length_drop]
  exact ⟨rfl, by omega⟩

theorem Pieces.concat {reports : List Report} {stream gap : Bytes} {report : Report}
    (h : Pieces reports stream) (hgap : gap.length = report.missed) :
    Pieces (reports ++ [report]) (stream ++ (gap ++ report.bytes)) := by
  obtain ⟨gaps, hgaps, rfl⟩ := h
  have hlength : gaps.length = (reports.map Report.bytes).length := by
    simpa using congrArg List.length hgaps
  refine ⟨gaps ++ [gap], by simp [hgaps, hgap], ?_⟩
  rw [map_append, List.zipWith_append hlength, flatten_append]
  simp

theorem Polled.Sound.show {w : Polled} (h : w.Sound decode) :
    (w.show ((reportSince w.cursor w.recent).text decode)
      (w.recent.recentDropped + w.recent.recentBytes.length)).Sound decode := by
  have htotal : w.recent.recentDropped + w.recent.recentBytes.length = w.produced.length := by
    have := h.dropped
    rw [h.recent, length_drop]
    omega
  obtain ⟨hreport, hgap⟩ := reportSince_spec h
  refine ⟨h.dropped, h.recent, htotal.le, ?_, ?_⟩
  · simp [Polled.show, h.texts]
  · have hpieces := h.pieces.concat hgap
    rw [hreport, take_append_drop] at hpieces
    rw [Polled.show]
    dsimp only
    rwa [htotal, take_length]

variable (decode cap) in
theorem outputRun_sound (events : List OutputEvent) :
    (outputRun decode cap events).stdout.Sound decode ∧
      (outputRun decode cap events).stderr.Sound decode := by
  induction events using List.reverseRecOn with
  | nil =>
    have hinitial : Polled.Sound decode ⟨⟨[], 0⟩, 0, [], [], []⟩ :=
      ⟨le_rfl, rfl, le_rfl, rfl, ⟨[], rfl, rfl⟩⟩
    exact ⟨hinitial, hinitial⟩
  | append_singleton events event ih =>
    rw [outputRun, foldl_append, ← outputRun, foldl_cons, foldl_nil]
    cases event with
    | stdout chunk => exact ⟨ih.1.read chunk, ih.2⟩
    | stderr chunk => exact ⟨ih.1, ih.2.read chunk⟩
    | poll => exact ⟨ih.1.show, ih.2.show⟩

theorem Pieces.sum {reports : List Report} {stream : Bytes} (h : Pieces reports stream) :
    (reports.map fun report => report.missed + report.bytes.length).sum = stream.length := by
  obtain ⟨gaps, hgaps, rfl⟩ := h
  induction reports generalizing gaps with
  | nil => simp
  | cons report reports ih =>
    cases gaps with
    | nil => cases hgaps
    | cons gap gaps =>
      obtain ⟨hgap, hgaps⟩ := List.cons.inj hgaps
      simp [ih gaps hgaps, ← hgap, Nat.add_assoc]

/-- Without gaps the pieces are the stream. -/
theorem Pieces.flatten {reports : List Report} {stream : Bytes} (h : Pieces reports stream)
    (hmissed : ∀ report ∈ reports, report.missed = 0) :
    (reports.map Report.bytes).flatten = stream := by
  obtain ⟨gaps, hgaps, rfl⟩ := h
  induction reports generalizing gaps with
  | nil => simp
  | cons report reports ih =>
    cases gaps with
    | nil => cases hgaps
    | cons gap gaps =>
      obtain ⟨hgap, hgaps⟩ := List.cons.inj hgaps
      obtain ⟨hnone, hmissed⟩ := forall_mem_cons.mp hmissed
      rw [hnone, length_eq_zero_iff] at hgap
      simp [ih hmissed gaps hgaps, hgap]

theorem flatten_texts {reports : List Report} (hne : reports ≠ [])
    (hmissed : ∀ report ∈ reports, report.missed = 0)
    (hboundary : ∀ report ∈ reports.dropLast, AtBoundary decode report.bytes) :
    (reports.map (Report.text decode)).flatten = decode (reports.map Report.bytes).flatten := by
  induction reports with
  | nil => exact absurd rfl hne
  | cons report reports ih =>
    obtain ⟨hnone, hmissed⟩ := forall_mem_cons.mp hmissed
    have htext : report.text decode = decode report.bytes := by
      rw [Report.text, hnone, truncationMarker, if_pos rfl, nil_append]
    cases reports with
    | nil => simp [htext]
    | cons next reports =>
      obtain ⟨hfirst, hboundary⟩ := forall_mem_cons.mp hboundary
      rw [map_cons, flatten_cons, ih (cons_ne_nil _ _) hmissed hboundary, htext]
      exact (hfirst _).symm

/-- After a poll every byte that was produced has been reported once, as text or as missed; and if
nothing was missed and no poll cut a character the texts are the text of the stream. -/
theorem runningOutput_accounts (decode : Bytes → Text) (cap : ℤ) (events : List OutputEvent) :
    let w := outputRun decode cap (events ++ [.poll])
    ∀ stream ∈ [w.stdout, w.stderr],
      stream.texts = stream.reports.map (Report.text decode) ∧
      Pieces stream.reports stream.produced ∧
      (stream.reports.map fun report => report.missed + report.bytes.length).sum
        = stream.produced.length ∧
      ((∀ report ∈ stream.reports, report.missed = 0) →
        (∀ report ∈ stream.reports.dropLast, AtBoundary decode report.bytes) →
          stream.texts.flatten = decode stream.produced) := by
  intro w stream hstream
  have hlast : w = outputStep decode cap (outputRun decode cap events) .poll :=
    foldl_append
  obtain ⟨hout, herr⟩ := outputRun_sound decode cap events
  have hpolled : ∃ old : Polled, old.Sound decode ∧ stream = old.show
      ((reportSince old.cursor old.recent).text decode)
      (old.recent.recentDropped + old.recent.recentBytes.length) := by
    rw [hlast] at hstream
    obtain rfl | hstream := mem_cons.mp hstream
    · exact ⟨_, hout, rfl⟩
    · exact ⟨_, herr, mem_singleton.mp hstream⟩
  obtain ⟨old, hold, rfl⟩ := hpolled
  have hsound := hold.show
  have hpieces := hsound.pieces
  have htotal : old.recent.recentDropped + old.recent.recentBytes.length = old.produced.length := by
    have := hold.dropped
    rw [hold.recent, length_drop]
    omega
  have hall : Pieces (old.show ((reportSince old.cursor old.recent).text decode)
      (old.recent.recentDropped + old.recent.recentBytes.length)).reports old.produced := by
    rw [Polled.show] at hpieces
    dsimp only at hpieces
    rwa [htotal, take_length] at hpieces
  refine ⟨hsound.texts, hall, hall.sum, fun hmissed hboundary => ?_⟩
  rw [hsound.texts, flatten_texts (by simp [Polled.show]) hmissed hboundary, hall.flatten hmissed]
  rfl

/-- The decoder that puts a replacement character for a byte that no character begins with. -/
def decodeReplacing : ℕ → Bytes → Text
  | 0, _ | _, [] => []
  | fuel + 1, byte :: bytes =>
    match (byte :: bytes).toByteArray.utf8DecodeChar? 0 with
    | some c => c :: decodeReplacing fuel ((byte :: bytes).drop c.utf8Size)
    | none => '\uFFFD' :: decodeReplacing fuel bytes

/-- A poll between the two bytes of a letter. -/
theorem not_runningOutput_decodes : ¬ ∀ (cap : ℤ) (events : List OutputEvent), 0 < cap →
    let w := outputRun (decodeReplacing 9) cap (events ++ [.poll])
    (∀ report ∈ w.stdout.reports, report.missed = 0) →
      w.stdout.texts.flatten = decodeReplacing 9 w.stdout.produced := by
  intro h
  exact absurd (h 9 [.stdout [0xC3], .poll, .stdout [0xA9]] (by decide) (by decide)) (by decide)

end Poll

end CommandOutput
end HaskellAgent
