import HaskellAgent.Lib.JoinTrimmed
import HaskellAgent.Responses.JsonText

/-!
# The stream of a proposed plan

Assistant text comes in chunks.  Lines with nothing but a tag on them open and close a plan; a line
that is not complete is held as long as it may become one.
-/

open List

namespace HaskellAgent

namespace PlanStream

/-! ### The parser -/

inductive ProposedPlanSegment
  | assistantText (text : Text)
  | proposedPlanStart
  | proposedPlanDelta (text : Text)
  | proposedPlanEnd
  deriving DecidableEq

open ProposedPlanSegment

structure ProposedPlanStream where
  proposedPlanInside : Bool
  proposedPlanPendingLine : Text
  proposedPlanPassingLine : Bool
  deriving DecidableEq

def openTag : Text := "<proposed_plan>".toList

def closeTag : Text := "</proposed_plan>".toList

def strip (text : Text) : Text := text.trim isSpace

def isHorizontalSpace (c : Char) : Bool := c == ' ' || c == '\t' || c == '\r'

def couldBecomeTag (tag candidate : Text) : Bool :=
  candidate.isPrefixOf tag ||
    (tag.isPrefixOf candidate && (candidate.drop tag.length).all isHorizontalSpace)

def couldBecomeControlLine (inside : Bool) (line : Text) : Bool :=
  couldBecomeTag (if inside then closeTag else openTag) (line.dropWhile isHorizontalSpace)

def textSegment (inside : Bool) (text : Text) : List ProposedPlanSegment :=
  if text.isEmpty then [] else if inside then [proposedPlanDelta text] else [assistantText text]

def consumeLine (inside : Bool) (line : Text) : Bool × List ProposedPlanSegment :=
  if strip line = openTag ∧ inside = false then (true, [proposedPlanStart])
  else if strip line = closeTag ∧ inside = true then (false, [proposedPlanEnd])
  else (inside, textSegment inside line)

def consumeStream (inside passing : Bool) (input : Text) :
    ProposedPlanStream × List ProposedPlanSegment :=
  let line := input.takeWhile (· ≠ '\n')
  match h : input.dropWhile (· ≠ '\n') with
  | [] =>
    if passing = false ∧ couldBecomeControlLine inside input = true then
      (⟨inside, input, false⟩, [])
    else (⟨inside, [], true⟩, textSegment inside line)
  | _ :: remaining =>
    let completeLine := line ++ ['\n']
    let consumed :=
      if passing then (inside, textSegment inside completeLine) else consumeLine inside completeLine
    let following := consumeStream consumed.1 false remaining
    (following.1, consumed.2 ++ following.2)
termination_by input.length
decreasing_by
  have hle : (input.dropWhile (· ≠ '\n')).length ≤ input.length :=
    (dropWhile_suffix _).length_le
  rw [h, length_cons] at hle
  exact hle

def initialProposedPlanStream : ProposedPlanStream := ⟨false, [], false⟩

def feedProposedPlanStream (state : ProposedPlanStream) (chunk : Text) :
    ProposedPlanStream × List ProposedPlanSegment :=
  consumeStream state.proposedPlanInside state.proposedPlanPassingLine
    (state.proposedPlanPendingLine ++ chunk)

/-- What finishing makes of the line that is held. -/
def lastLine (state : ProposedPlanStream) : Bool × List ProposedPlanSegment :=
  if state.proposedPlanPassingLine then
    (state.proposedPlanInside, textSegment state.proposedPlanInside state.proposedPlanPendingLine)
  else consumeLine state.proposedPlanInside state.proposedPlanPendingLine

def finishProposedPlanStream (state : ProposedPlanStream) : List ProposedPlanSegment :=
  (lastLine state).2 ++ if (lastLine state).1 then [proposedPlanEnd] else []

def runFrom (state : ProposedPlanStream) : List Text → List ProposedPlanSegment
  | [] => finishProposedPlanStream state
  | chunk :: chunks =>
    (feedProposedPlanStream state chunk).2 ++ runFrom (feedProposedPlanStream state chunk).1 chunks

def runChunks (chunks : List Text) : List ProposedPlanSegment :=
  runFrom initialProposedPlanStream chunks

/-! ### Joining and weaving -/

/-- Puts a segment before others; two texts of one kind become one. -/
def attach : ProposedPlanSegment → List ProposedPlanSegment → List ProposedPlanSegment
  | assistantText text, assistantText more :: segments => assistantText (text ++ more) :: segments
  | proposedPlanDelta text, proposedPlanDelta more :: segments =>
    proposedPlanDelta (text ++ more) :: segments
  | segment, segments => segment :: segments

def joinSegments (segments : List ProposedPlanSegment) : List ProposedPlanSegment :=
  segments.foldr attach []

/-- The texts of the segments, and a removed line for each of its tags, make the text. -/
inductive Weaves : List ProposedPlanSegment → Text → Prop
  | nil : Weaves [] []
  | assistantText (text : Text) {segments rest} :
      Weaves segments rest → Weaves (assistantText text :: segments) (text ++ rest)
  | proposedPlanDelta (text : Text) {segments rest} :
      Weaves segments rest → Weaves (proposedPlanDelta text :: segments) (text ++ rest)
  | proposedPlanStart {line segments rest} : strip line = openTag →
      Weaves segments rest → Weaves (proposedPlanStart :: segments) (line ++ rest)
  | proposedPlanEnd {line segments rest} : strip line = closeTag →
      Weaves segments rest → Weaves (proposedPlanEnd :: segments) (line ++ rest)

/-! ### One line -/

theorem consumeStream_of_not_mem {input : Text} (h : '\n' ∉ input) (inside passing : Bool) :
    consumeStream inside passing input =
      if passing = false ∧ couldBecomeControlLine inside input = true then
        (⟨inside, input, false⟩, [])
      else (⟨inside, [], true⟩, textSegment inside input) := by
  have hall : ∀ c ∈ input, decide (c ≠ '\n') = true := fun c hc =>
    decide_eq_true fun heq => h (heq ▸ hc)
  rw [consumeStream]
  split
  · rw [takeWhile_eq_self_iff.mpr hall]
  · next heq => rw [dropWhile_eq_nil_iff.mpr hall] at heq; cases heq

variable {inside : Bool} {line : Text}

theorem consumeStream_line (h : '\n' ∉ line) (inside passing : Bool) (rest : Text) :
    consumeStream inside passing (line ++ '\n' :: rest) =
      let consumed := if passing then (inside, textSegment inside (line ++ ['\n']))
        else consumeLine inside (line ++ ['\n'])
      ((consumeStream consumed.1 false rest).1,
        consumed.2 ++ (consumeStream consumed.1 false rest).2) := by
  have hall : ∀ c ∈ line, decide (c ≠ '\n') = true := fun c hc =>
    decide_eq_true fun heq => h (heq ▸ hc)
  have hline : (line ++ '\n' :: rest).takeWhile (· ≠ '\n') = line := by
    rw [takeWhile_append_of_pos hall]; simp
  have hrest : (line ++ '\n' :: rest).dropWhile (· ≠ '\n') = '\n' :: rest := by
    rw [dropWhile_append_of_pos hall]; simp
  rw [consumeStream]
  split
  · next heq => rw [hrest] at heq; cases heq
  · next heq =>
    obtain ⟨-, rfl⟩ := List.cons.inj (hrest.symm.trans heq)
    rw [hline]

/-- A text is a line that is not complete, or a complete line and a text. -/
theorem line_cases (text : Text) :
    '\n' ∉ text ∨ ∃ line rest, '\n' ∉ line ∧ text = line ++ '\n' :: rest := by
  by_cases h : '\n' ∈ text
  · obtain ⟨line, rest, rfl, hline⟩ := eq_append_cons_of_mem h
    exact .inr ⟨line, rest, hline, rfl⟩
  · exact .inl h

theorem dropWhile_horizontal_append (line more : Text) :
    line.dropWhile isHorizontalSpace = [] ∨
      (line ++ more).dropWhile isHorizontalSpace
        = line.dropWhile isHorizontalSpace ++ more := by
  rw [dropWhile_append]
  by_cases h : (line.dropWhile isHorizontalSpace).isEmpty = true
  · exact .inl (List.isEmpty_iff.mp h)
  · exact .inr (if_neg h)

/-- What may become a tag line has always been able to. -/
theorem couldBecomeControlLine_of_append {line more : Text}
    (h : couldBecomeControlLine inside (line ++ more) = true) :
    couldBecomeControlLine inside line = true := by
  unfold couldBecomeControlLine couldBecomeTag at *
  generalize (if inside then closeTag else openTag) = tag at *
  obtain hnil | hmore := dropWhile_horizontal_append line more
  · rw [hnil]
    rfl
  · rw [hmore] at h
    generalize line.dropWhile isHorizontalSpace = candidate at *
    simp only [Bool.or_eq_true, Bool.and_eq_true, isPrefixOf_iff_prefix] at h ⊢
    obtain hlead | ⟨hlead, hblank⟩ := h
    · exact .inl ((prefix_append candidate more).trans hlead)
    · obtain hshort | hlong := le_total candidate.length tag.length
      · have hprefix := prefix_append candidate more
        exact .inl (prefix_of_prefix_length_le hprefix hlead hshort)
      · have hprefix := prefix_append candidate more
        refine .inr ⟨prefix_of_prefix_length_le hlead hprefix hlong, ?_⟩
        rw [drop_append_of_le_length hlong, all_append, Bool.and_eq_true] at hblank
        exact hblank.1

/-! ### Nothing is lost -/

theorem Weaves.append {segments more : List ProposedPlanSegment} {text rest : Text}
    (h : Weaves segments text) (hmore : Weaves more rest) :
    Weaves (segments ++ more) (text ++ rest) := by
  induction h with
  | nil => exact hmore
  | assistantText text _ ih => rw [append_assoc]; exact .assistantText text ih
  | proposedPlanDelta text _ ih => rw [append_assoc]; exact .proposedPlanDelta text ih
  | proposedPlanStart hline _ ih => rw [append_assoc]; exact .proposedPlanStart hline ih
  | proposedPlanEnd hline _ ih => rw [append_assoc]; exact .proposedPlanEnd hline ih

theorem weaves_textSegment (inside : Bool) (text : Text) :
    Weaves (textSegment inside text) text := by
  rw [textSegment]
  split_ifs with hempty hinside
  · rw [List.isEmpty_iff.mp hempty]; exact .nil
  · simpa using Weaves.proposedPlanDelta text .nil
  · simpa using Weaves.assistantText text .nil

theorem weaves_consumeLine (inside : Bool) (line : Text) :
    Weaves (consumeLine inside line).2 line := by
  rw [consumeLine]
  split_ifs with hopen hclose
  · simpa using Weaves.proposedPlanStart hopen.1 .nil
  · simpa using Weaves.proposedPlanEnd hclose.1 .nil
  · exact weaves_textSegment inside line

theorem weaves_lastLine (state : ProposedPlanStream) :
    Weaves (lastLine state).2 state.proposedPlanPendingLine := by
  rw [lastLine]
  split_ifs
  · exact weaves_textSegment _ _
  · exact weaves_consumeLine _ _

/-- What is fed is in the segments or held. -/
theorem consumeStream_weaves (inside passing : Bool) (input : Text) :
    ∃ text, Weaves (consumeStream inside passing input).2 text ∧
      text ++ (consumeStream inside passing input).1.proposedPlanPendingLine = input := by
  induction hlen : input.length using Nat.strong_induction_on generalizing inside passing input with
  | _ n ih =>
  obtain hopen | ⟨line, rest, hline, rfl⟩ := line_cases input
  · rw [consumeStream_of_not_mem hopen]
    split_ifs
    · exact ⟨[], .nil, rfl⟩
    · exact ⟨input, weaves_textSegment inside input, List.append_nil input⟩
  · rw [consumeStream_line hline]
    set consumed := if passing then (inside, textSegment inside (line ++ ['\n']))
      else consumeLine inside (line ++ ['\n']) with hconsumed
    have hweaves : Weaves consumed.2 (line ++ ['\n']) := by
      rw [hconsumed]
      split_ifs
      · exact weaves_textSegment inside _
      · exact weaves_consumeLine inside _
    obtain ⟨text, htext, hrest⟩ :=
      ih rest.length (by simp [← hlen]; omega) consumed.1 false rest rfl
    refine ⟨_, hweaves.append htext, ?_⟩
    rw [append_assoc, hrest, append_assoc]
    rfl

/-- The texts and the removed tag lines are what was fed; the end of a plan that was left open has
no line. -/
theorem runFrom_weaves (state : ProposedPlanStream) (chunks : List Text) :
    ∃ segments,
      (runFrom state chunks = segments ∨ runFrom state chunks = segments ++ [proposedPlanEnd]) ∧
      Weaves segments (state.proposedPlanPendingLine ++ chunks.flatten) := by
  induction chunks generalizing state with
  | nil =>
    refine ⟨(lastLine state).2, ?_, ?_⟩
    · rw [runFrom, finishProposedPlanStream]
      split_ifs
      · exact .inr rfl
      · exact .inl (List.append_nil _)
    · rw [flatten_nil, List.append_nil]
      exact weaves_lastLine state
  | cons chunk chunks ih =>
    obtain ⟨segments, hrun, hweaves⟩ := ih (feedProposedPlanStream state chunk).1
    obtain ⟨text, htext, hheld⟩ := consumeStream_weaves state.proposedPlanInside
      state.proposedPlanPassingLine (state.proposedPlanPendingLine ++ chunk)
    refine ⟨(feedProposedPlanStream state chunk).2 ++ segments, ?_, ?_⟩
    · rw [runFrom, append_assoc]
      exact hrun.imp (congrArg _) (congrArg _)
    · rw [flatten_cons, ← append_assoc, ← hheld, append_assoc]
      exact htext.append hweaves

/-! ### Chunks -/

/-- The places behind complete lines, and whether a plan is open there. -/
inductive Reaches : Bool → Text → Bool → Text → Prop
  | refl (inside : Bool) (text : Text) : Reaches inside text inside text
  | line {line inside rest inside' rest'} : '\n' ∉ line →
      Reaches (consumeLine inside (line ++ ['\n'])).1 rest inside' rest' →
      Reaches inside (line ++ '\n' :: rest) inside' rest'

/-- The complete lines that open or close a plan have only horizontal blanks around the tag. -/
def TagLinesHorizontal (inside : Bool) (text : Text) : Prop :=
  ∀ here line rest, Reaches inside text here (line ++ '\n' :: rest) → '\n' ∉ line →
    (consumeLine here (line ++ ['\n'])).1 ≠ here → couldBecomeControlLine here line = true

/-- The state behind an unfinished line. -/
def held (inside : Bool) (line : Text) : ProposedPlanStream :=
  if couldBecomeControlLine inside line = true then ⟨inside, line, false⟩ else ⟨inside, [], true⟩

/-- What has been given out of an unfinished line. -/
def released (inside : Bool) (line : Text) : List ProposedPlanSegment :=
  if couldBecomeControlLine inside line = true then [] else textSegment inside line

theorem held_nil (inside : Bool) : held inside [] = ⟨inside, [], false⟩ := by cases inside <;> rfl

theorem released_nil (inside : Bool) : released inside [] = [] := by cases inside <;> rfl

theorem joinSegments_append (segments more : List ProposedPlanSegment) :
    joinSegments (segments ++ more) = segments.foldr attach (joinSegments more) := foldr_append

theorem attach_attach_delta (text more : Text) (segments : List ProposedPlanSegment) :
    attach (proposedPlanDelta text) (attach (proposedPlanDelta more) segments)
      = attach (proposedPlanDelta (text ++ more)) segments := by
  cases segments with
  | nil => rfl
  | cons segment segments => cases segment <;> simp [attach]

theorem attach_attach_text (text more : Text) (segments : List ProposedPlanSegment) :
    attach (assistantText text) (attach (assistantText more) segments)
      = attach (assistantText (text ++ more)) segments := by
  cases segments with
  | nil => rfl
  | cons segment segments => cases segment <;> simp [attach]

/-- It does not matter where a text is cut. -/
theorem foldr_textSegment (inside : Bool) (text more : Text) (segments : List ProposedPlanSegment) :
    (textSegment inside text ++ textSegment inside more).foldr attach segments
      = (textSegment inside (text ++ more)).foldr attach segments := by
  cases text with
  | nil => rfl
  | cons c text =>
    cases more with
    | nil => simp [textSegment]
    | cons d more =>
      cases inside
      · exact attach_attach_text _ _ segments
      · exact attach_attach_delta _ _ segments

theorem consumeLine_of_fst_eq
    (h : (consumeLine inside line).1 = inside) :
    consumeLine inside line = (inside, textSegment inside line) := by
  rw [consumeLine] at h ⊢
  split_ifs at h ⊢ with hopen hclose
  · exact absurd (h.trans hopen.2) (by decide)
  · exact absurd (h.trans hclose.2) (by decide)
  · rfl

theorem feed_held {line chunk : Text} (h : '\n' ∉ line ++ chunk) :
    (feedProposedPlanStream (held inside line) chunk).1 = held inside (line ++ chunk) ∧
      ∀ segments, (released inside line ++
        (feedProposedPlanStream (held inside line) chunk).2).foldr attach segments
          = (released inside (line ++ chunk)).foldr attach segments := by
  by_cases hcould : couldBecomeControlLine inside line = true
  · rw [held, released, if_pos hcould, if_pos hcould, feedProposedPlanStream,
      consumeStream_of_not_mem h, held, released]
    by_cases hmore : couldBecomeControlLine inside (line ++ chunk) = true <;> simp [hmore]
  · have hmore : ¬ couldBecomeControlLine inside (line ++ chunk) = true := fun hmore =>
      hcould (couldBecomeControlLine_of_append hmore)
    have hchunk : '\n' ∉ chunk := fun hmem => h (mem_append_right line hmem)
    rw [held, released, if_neg hcould, if_neg hcould, feedProposedPlanStream, nil_append,
      consumeStream_of_not_mem hchunk, held, released, if_neg hmore, if_neg hmore, if_neg (by simp)]
    exact ⟨rfl, foldr_textSegment inside line chunk⟩

/-- The line break ends the line as it would if the line had come whole. -/
theorem feed_held_line {line more : Text} (h : '\n' ∉ line ++ more)
    (hblanks : (consumeLine inside (line ++ more ++ ['\n'])).1 ≠ inside →
      couldBecomeControlLine inside (line ++ more) = true) (rest : Text) :
    let next := (consumeLine inside (line ++ more ++ ['\n'])).1
    (feedProposedPlanStream (held inside line) (more ++ '\n' :: rest)).1
        = (feedProposedPlanStream (held next []) rest).1 ∧
      ∀ segments, (released inside line ++
        (feedProposedPlanStream (held inside line) (more ++ '\n' :: rest)).2).foldr attach segments
          = ((consumeLine inside (line ++ more ++ ['\n'])).2 ++
              (feedProposedPlanStream (held next []) rest).2).foldr attach segments := by
  intro next
  rw [held_nil]
  by_cases hcould : couldBecomeControlLine inside line = true
  · rw [held, released, if_pos hcould, if_pos hcould, feedProposedPlanStream, ← append_assoc,
      consumeStream_line h]
    exact ⟨rfl, fun _ => rfl⟩
  · have hmore : ¬ couldBecomeControlLine inside (line ++ more) = true := fun hmore =>
      hcould (couldBecomeControlLine_of_append hmore)
    have hline := consumeLine_of_fst_eq (by_contra fun hne => hmore (hblanks hne))
    have hnext : next = inside := congrArg Prod.fst hline
    rw [held, released, if_neg hcould, if_neg hcould, feedProposedPlanStream, nil_append,
      consumeStream_line fun hmem => h (mem_append_right line hmem), hline, hnext]
    refine ⟨rfl, fun segments => ?_⟩
    simp only [if_true, ← append_assoc]
    rw [foldr_append, foldr_textSegment, ← foldr_append, ← append_assoc]
    rfl

theorem runFrom_line (h : '\n' ∉ line) (inside : Bool) (rest : Text) :
    runFrom (held inside []) [line ++ '\n' :: rest]
      = (consumeLine inside (line ++ ['\n'])).2 ++
          runFrom (held (consumeLine inside (line ++ ['\n'])).1 []) [rest] := by
  rw [held_nil, held_nil]
  simp only [runFrom, feedProposedPlanStream, nil_append, consumeStream_line h]
  rw [append_assoc]
  rfl

theorem runFrom_of_not_mem (h : '\n' ∉ line) (inside : Bool) :
    runFrom (held inside []) [line]
      = released inside line ++ finishProposedPlanStream (held inside line) := by
  rw [held_nil]
  simp only [runFrom, feedProposedPlanStream, nil_append, consumeStream_of_not_mem h, released,
    held]
  by_cases hcould : couldBecomeControlLine inside line = true <;> simp [hcould]

/-- Behind an unfinished line the chunks give what the whole text gives. -/
theorem joinSegments_runFrom (chunks : List Text)
    (hline : '\n' ∉ line) (htags : TagLinesHorizontal inside (line ++ chunks.flatten)) :
    joinSegments (released inside line ++ runFrom (held inside line) chunks)
      = joinSegments (runFrom (held inside []) [line ++ chunks.flatten]) := by
  induction chunks generalizing inside line with
  | nil => rw [flatten_nil, List.append_nil, runFrom_of_not_mem hline, runFrom]
  | cons chunk chunks ih =>
    -- inside a chunk, from line to line
    induction hlen : chunk.length using Nat.strong_induction_on generalizing inside line chunk with
    | _ n ihn =>
    rw [runFrom, ← append_assoc, joinSegments_append, flatten_cons, ← append_assoc]
    obtain hopen | ⟨more, rest, hmore, rfl⟩ := line_cases chunk
    · have hboth : '\n' ∉ line ++ chunk := by simp [hline, hopen]
      obtain ⟨hstate, hout⟩ := @feed_held inside line chunk hboth
      rw [hstate, hout, ← joinSegments_append]
      exact ih hboth (by rwa [append_assoc])
    · have hboth : '\n' ∉ line ++ more := by simp [hline, hmore]
      have hshape : line ++ (more ++ '\n' :: rest) ++ chunks.flatten
          = (line ++ more) ++ '\n' :: (rest ++ chunks.flatten) := by simp
      rw [flatten_cons, ← append_assoc, hshape] at htags
      obtain ⟨hstate, hout⟩ := feed_held_line hboth (htags _ _ _ (.refl _ _) hboth) rest
      rw [hstate, hout, foldr_append, ← joinSegments_append, hshape, runFrom_line hboth]
      have htagsRest : TagLinesHorizontal (consumeLine inside (line ++ more ++ ['\n'])).1
          ([] ++ (rest :: chunks).flatten) := by
        rw [nil_append, flatten_cons]
        exact fun here line rest hreach => htags here line rest (.line hboth hreach)
      have hrest := ihn rest.length (by simp [← hlen]; omega) rest not_mem_nil htagsRest rfl
      rw [released_nil, nil_append, nil_append, flatten_cons] at hrest
      conv_rhs => rw [joinSegments_append, ← hrest]
      rfl

/-! ### Texts that are read differently -/

/-- The characters of a segment with their kind; a tag is `none`. -/
def marks : ProposedPlanSegment → List (Option (Bool × Char))
  | assistantText text => text.map fun c => some (false, c)
  | proposedPlanDelta text => text.map fun c => some (true, c)
  | proposedPlanStart | proposedPlanEnd => [none]

theorem marks_joinSegments (segments : List ProposedPlanSegment) :
    (joinSegments segments).flatMap marks = segments.flatMap marks := by
  induction segments with
  | nil => rfl
  | cons segment segments ih =>
    rw [flatMap_cons, ← ih]
    change (attach segment (joinSegments segments)).flatMap marks = _
    cases hjoined : joinSegments segments with
    | nil => cases segment <;> rfl
    | cons other others => cases segment <;> cases other <;> simp [attach, marks]

/-- Reading on from a place that is reached. -/
theorem Reaches.consumeStream {inside here : Bool} {text rest : Text}
    (h : Reaches inside text here rest) : ∃ before out, text = before ++ rest ∧ ∀ rest',
    PlanStream.consumeStream inside false (before ++ rest')
      = ((PlanStream.consumeStream here false rest').1,
          out ++ (PlanStream.consumeStream here false rest').2) := by
  induction h with
  | refl => exact ⟨[], [], rfl, fun _ => rfl⟩
  | @line line inside _ _ _ hline _ ih =>
    obtain ⟨before, out, rfl, hout⟩ := ih
    refine ⟨line ++ '\n' :: before, (consumeLine inside (line ++ ['\n'])).2 ++ out, by simp,
      fun rest' => ?_⟩
    rw [append_assoc, cons_append, consumeStream_line hline]
    simp [hout]

theorem marks_of_switch (h : (consumeLine inside line).1 ≠ inside) :
    (consumeLine inside line).2.flatMap marks = [none] := by
  rw [consumeLine] at h ⊢
  split_ifs at h ⊢ with hopen hclose
  · rfl
  · rfl
  · exact absurd rfl h

theorem marks_textSegment {c : Char} {text : Text} :
    (textSegment inside (c :: text)).flatMap marks
      = some (inside, c) :: text.map fun c => some (inside, c) := by
  cases inside <;> simp [textSegment, marks]

/-- The chunks of a text do not matter just if its tag lines have only horizontal blanks around
their tags; and however it is cut nothing but tag lines is lost. -/
theorem chunks_agree_iff (text : Text) :
    (∀ chunks : List Text, chunks.flatten = text →
      joinSegments (runChunks chunks) = joinSegments (runChunks [text]) ∧
      ∃ segments, (runChunks chunks = segments ∨ runChunks chunks = segments ++ [proposedPlanEnd]) ∧
        Weaves segments text) ↔
      TagLinesHorizontal false text := by
  constructor
  · intro h here line rest hreach hline hswitch
    by_contra hcould
    obtain ⟨before, out, rfl, hout⟩ := hreach.consumeStream
    have hsame := congrArg (List.flatMap marks) (h [before ++ line, '\n' :: rest] (by simp)).1
    rw [marks_joinSegments, marks_joinSegments] at hsame
    have hne : line ≠ [] := by
      rintro rfl
      exact hcould (by cases here <;> rfl)
    obtain ⟨c, line, rfl⟩ := exists_cons_of_ne_nil hne
    have hwhole := consumeStream_line hline here false rest
    have hmarks := marks_of_switch hswitch
    rw [cons_append] at hwhole hmarks
    simp [runChunks, runFrom, feedProposedPlanStream, initialProposedPlanStream, hout,
      consumeStream_of_not_mem hline, hcould, hwhole, hmarks, marks_textSegment] at hsame
  · rintro htags chunks rfl
    have hjoin := @joinSegments_runFrom false [] chunks not_mem_nil htags
    rw [held_nil, released_nil] at hjoin
    exact ⟨hjoin, runFrom_weaves initialProposedPlanStream chunks⟩

/-- A vertical tab before the tag, in a chunk of its own. -/
theorem not_chunks_agree : ¬ ∀ chunks : List Text,
    joinSegments (runChunks chunks) = joinSegments (runChunks [chunks.flatten]) := by
  intro h
  have hmarks := congrArg (List.flatMap marks) (h [['\x0b'], openTag ++ ['\n']])
  rw [marks_joinSegments, marks_joinSegments] at hmarks
  have hline : '\n' ∉ '\x0b' :: openTag := by decide
  have hwhole : [['\x0b'], openTag ++ ['\n']].flatten = '\x0b' :: openTag ++ '\n' :: [] := by simp
  have hlead : '\n' ∉ ['\x0b'] := by decide
  rw [hwhole] at hmarks
  simp only [runChunks, runFrom, feedProposedPlanStream, initialProposedPlanStream, nil_append,
    consumeStream_line hline, consumeStream_of_not_mem hlead] at hmarks
  rw [if_neg (by decide)] at hmarks
  have hswitch : consumeLine false ('\x0b' :: openTag ++ ['\n']) = (true, [proposedPlanStart]) := by
    decide
  rw [hswitch] at hmarks
  exact absurd hmarks (by simp [textSegment, marks])

end PlanStream

end HaskellAgent
