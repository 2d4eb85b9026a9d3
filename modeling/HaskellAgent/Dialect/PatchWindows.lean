import HaskellAgent.Dialect.PatchParser
import Mathlib.Data.Nat.Find

/-!
# What a chunk changes in a file

A chunk replaces one window of the file.  The lines of the window have the texts of the old lines,
its context lines stay as they stand in the file, and nothing else is touched.  Which of several
windows it is, the header decides.
-/

open List

namespace HaskellAgent

namespace Patch

/-! ### One window -/

/-- The change lines turn the window into the new lines, of which the added ones have the preferred
ending. -/
inductive Rewritten (preferred : Text) :
    List ChangeLine → List SourceLine → List SourceLine → Prop
  | nil : Rewritten preferred [] [] []
  | context {body : List ChangeLine} {window new : List SourceLine} (line : SourceLine) :
      Rewritten preferred body window new →
        Rewritten preferred (⟨.context, line.sourceText⟩ :: body) (line :: window) (line :: new)
  | removed {body : List ChangeLine} {window new : List SourceLine} (line : SourceLine) :
      Rewritten preferred body window new →
        Rewritten preferred (⟨.removed, line.sourceText⟩ :: body) (line :: window) new
  | added {body : List ChangeLine} {window new : List SourceLine} (text : Text) :
      Rewritten preferred body window new →
        Rewritten preferred (⟨.added, text⟩ :: body) window (⟨text, preferred⟩ :: new)

def oldTexts (body : List ChangeLine) : List Text :=
  (body.filter fun line => line.mark ≠ .added).map ChangeLine.text

def newTexts (body : List ChangeLine) : List Text :=
  (body.filter fun line => line.mark ≠ .removed).map ChangeLine.text

@[simp] theorem oldTexts_cons (line : ChangeLine) (body : List ChangeLine) :
    oldTexts (line :: body) =
      if line.mark = .added then oldTexts body else line.text :: oldTexts body := by
  unfold oldTexts
  split <;> simp_all

@[simp] theorem newTexts_cons (line : ChangeLine) (body : List ChangeLine) :
    newTexts (line :: body) =
      if line.mark = .removed then newTexts body else line.text :: newTexts body := by
  unfold newTexts
  split <;> simp_all

theorem chunkOld_buildChunk (header : Option Text) (body : List ChangeLine) (eof : Bool) :
    (buildChunk header (body.map ChangeLine.print) eof).chunkOld = oldTexts body := by
  induction body with
  | nil => rfl
  | cons line body ih =>
    rcases line with ⟨mark, text⟩
    rw [oldTexts_cons, ← ih]
    cases mark <;> rfl

theorem chunkNew_buildChunk (header : Option Text) (body : List ChangeLine) (eof : Bool) :
    (buildChunk header (body.map ChangeLine.print) eof).chunkNew = newTexts body := by
  induction body with
  | nil => rfl
  | cons line body ih =>
    rcases line with ⟨mark, text⟩
    rw [newTexts_cons, ← ih]
    cases mark <;> rfl

/-- The lines for the window, by the change lines in order. -/
def rewrite (preferred : Text) : List ChangeLine → List SourceLine → List SourceLine
  | [], _ => []
  | ⟨.context, text⟩ :: body, window =>
      window.headD ⟨text, preferred⟩ :: rewrite preferred body window.tail
  | ⟨.removed, _⟩ :: body, window => rewrite preferred body window.tail
  | ⟨.added, text⟩ :: body, window => ⟨text, preferred⟩ :: rewrite preferred body window

variable {preferred : Text}

theorem rewritten_rewrite {body : List ChangeLine} {window : List SourceLine}
    (h : window.map SourceLine.sourceText = oldTexts body) :
    Rewritten preferred body window (rewrite preferred body window) := by
  induction body generalizing window with
  | nil =>
    rw [map_eq_nil_iff.mp h]
    exact .nil
  | cons change body ih =>
    rcases change with ⟨mark, text⟩
    rw [oldTexts_cons] at h
    cases mark with
    | added => exact .added text (ih h)
    | context =>
      obtain ⟨line, rest, rfl, rfl, hrest⟩ := map_eq_cons_iff.mp h
      exact .context line (ih hrest)
    | removed =>
      obtain ⟨line, rest, rfl, rfl, hrest⟩ := map_eq_cons_iff.mp h
      exact .removed line (ih hrest)

/-- Only the window is read. -/
theorem rewrite_take (body : List ChangeLine) (rest : List SourceLine) :
    rewrite preferred body (rest.take (oldTexts body).length) = rewrite preferred body rest := by
  induction body generalizing rest with
  | nil => rfl
  | cons change body ih =>
    rcases change with ⟨mark, text⟩
    cases mark with
    | added => rw [oldTexts_cons, if_pos rfl, rewrite, rewrite, ih]
    | context | removed =>
      rw [oldTexts_cons, if_neg (by simp), rewrite, rewrite]
      cases rest with
      | nil => rfl
      | cons line rest =>
        rw [length_cons, take_succ_cons, tail_cons, ih]
        rfl

namespace Rewritten

variable {preferred : Text} {body : List ChangeLine} {window new : List SourceLine}

section

variable (h : Rewritten preferred body window new)
include h

theorem map_new :
    new.map SourceLine.sourceText = newTexts body := by
  induction h with
  | nil => rfl
  | context line _ ih => rw [newTexts_cons, if_neg (by simp), map_cons, ih]
  | removed line _ ih => rw [newTexts_cons, if_pos rfl, ih]
  | added text _ ih => rw [newTexts_cons, if_neg (by simp), map_cons, ih]

/-- A line is of the file, or it is new. -/
theorem mem_new {line : SourceLine} (hline : line ∈ new) :
    line ∈ window ∨ line.sourceEnding = preferred := by
  induction h with
  | nil => cases hline
  | context kept _ ih =>
    rcases mem_cons.mp hline with rfl | hline
    · exact Or.inl mem_cons_self
    · exact (ih hline).imp_left (mem_cons_of_mem kept)
  | removed lost _ ih => exact (ih hline).imp_left (mem_cons_of_mem lost)
  | added text _ ih =>
    rcases mem_cons.mp hline with rfl | hline
    · exact Or.inr rfl
    · exact ih hline

theorem eq_of_context (hbody : ∀ line ∈ body, line.mark = .context) : new = window := by
  induction h with
  | nil => rfl
  | context line _ ih => rw [ih fun change hchange => hbody change (mem_cons_of_mem _ hchange)]
  | removed line _ _ | added text _ _ => exact absurd (hbody _ mem_cons_self) (by simp)

end

end Rewritten

/-! ### The context lines of the source -/

/-- What `retainedLines` puts at an index, the indices of the new lines counted from `new`. -/
def retained (indices : List (ℕ × ℕ)) (fileLines : List SourceLine) (idx new : ℕ)
    (line : SourceLine) : SourceLine :=
  match indices.reverse.lookup new with
  | some oldIndex => fileLines[idx + oldIndex]?.getD line
  | none => line

theorem lookup_reverse_cons {entry : ℕ × ℕ} {indices : List (ℕ × ℕ)} {key : ℕ}
    (h : key ≠ entry.1) :
    (entry :: indices).reverse.lookup key = indices.reverse.lookup key := by
  rw [reverse_cons, lookup_append]
  have hnone : List.lookup key [entry] = none := List.lookup_eq_none_iff.mpr (by simpa using h)
  rw [hnone, Option.or_none]

theorem lt_of_mem_contextIndices {body : List Text} {oldIndex newIndex : ℕ} {entry : ℕ × ℕ}
    (h : entry ∈ contextIndices oldIndex newIndex body) : newIndex ≤ entry.1 := by
  induction body generalizing oldIndex newIndex with
  | nil => cases h
  | cons line body ih =>
    simp only [contextIndices] at h
    split at h
    · rcases mem_cons.mp h with rfl | h
      · exact le_refl _
      · exact (Nat.le_succ _).trans (ih h)
    · exact ih h
    · exact (Nat.le_succ _).trans (ih h)
    · exact ih h

theorem lookup_eq_none_of_lt {indices : List (ℕ × ℕ)} {key bound : ℕ} (hkey : key < bound)
    (h : ∀ entry ∈ indices, bound ≤ entry.1) : indices.reverse.lookup key = none := by
  rw [List.lookup_eq_none_iff]
  intro entry hentry
  have hle := h entry (mem_reverse.mp hentry)
  have hne : key ≠ entry.1 := by omega
  simpa using hne

variable {fileLines : List SourceLine} {file : List SourceLine} {chunk : UpdateChunk}
  {chunks : List UpdateChunk} {needle : List Text}

/-- The new lines with the context lines of the file are the rewritten window. -/
theorem mapIdx_retained (body : List ChangeLine)
    {idx oldIndex newIndex : ℕ} {window : List SourceLine}
    (hwindow : ∀ j, fileLines[idx + (oldIndex + j)]? = window[j]?) :
    ((newTexts body).map fun text => (⟨text, preferred⟩ : SourceLine)).mapIdx
        (fun i line => retained (contextIndices oldIndex newIndex (body.map ChangeLine.print))
          fileLines idx (i + newIndex) line) =
      rewrite preferred body window := by
  induction body generalizing oldIndex newIndex window with
  | nil => rfl
  | cons change body ih =>
    rcases change with ⟨mark, text⟩
    have htail : ∀ j, fileLines[idx + (oldIndex + 1 + j)]? = window.tail[j]? := by
      intro j
      rw [List.getElem?_tail, ← hwindow (j + 1)]
      congr 1
      omega
    cases mark with
    | removed =>
      rw [newTexts_cons, if_pos rfl, rewrite, ← ih htail]
      rfl
    | context =>
      have hindices : contextIndices oldIndex newIndex
          (List.map ChangeLine.print (⟨.context, text⟩ :: body)) =
          (newIndex, oldIndex) ::
            contextIndices (oldIndex + 1) (newIndex + 1) (body.map ChangeLine.print) := rfl
      rw [newTexts_cons, if_neg (by simp), rewrite, hindices, map_cons, mapIdx_cons]
      congr 1
      · have hnone : (contextIndices (oldIndex + 1) (newIndex + 1)
            (body.map ChangeLine.print)).reverse.lookup newIndex = none :=
          lookup_eq_none_of_lt (Nat.lt_succ_self _) fun _ => lt_of_mem_contextIndices
        have hhead := hwindow 0
        rw [Nat.add_zero] at hhead
        rw [retained, Nat.zero_add, reverse_cons, lookup_append, hnone, Option.none_or]
        simp only [lookup_cons_self, hhead]
        cases window <;> rfl
      · rw [← ih htail]
        refine mapIdx_eq_mapIdx_iff.mpr fun i hi => ?_
        rw [retained, retained, lookup_reverse_cons (by dsimp only; omega)]
        congr 2
        omega
    | added =>
      have hindices : contextIndices oldIndex newIndex
          (List.map ChangeLine.print (⟨.added, text⟩ :: body)) =
          contextIndices oldIndex (newIndex + 1) (body.map ChangeLine.print) := rfl
      rw [newTexts_cons, if_neg (by simp), rewrite, hindices, map_cons, mapIdx_cons]
      congr 1
      · rw [retained, Nat.zero_add,
          lookup_eq_none_of_lt (Nat.lt_succ_self _) fun _ => lt_of_mem_contextIndices]
      · rw [← ih hwindow]
        refine mapIdx_eq_mapIdx_iff.mpr fun i hi => ?_
        congr 1
        omega

theorem retainedLines_buildChunk (header : Option Text) (body : List ChangeLine) (eof : Bool)
    (fileLines : List SourceLine) (idx : ℕ) :
    retainedLines (buildChunk header (body.map ChangeLine.print) eof)
        ((newTexts body).map fun text => ⟨text, preferred⟩) fileLines idx =
      rewrite preferred body (fileLines.drop idx) := by
  have hlines := @mapIdx_retained preferred fileLines body idx 0 0 (fileLines.drop idx)
    fun j => by rw [List.getElem?_drop, Nat.zero_add]
  rw [← hlines]
  rfl

/-! ### Where a chunk is found -/

/-- The needle stands at a position. -/
def OccursAt (needle haystack : List Text) (i : ℕ) : Prop :=
  (haystack.drop i).take needle.length = needle

variable {haystack : List Text}

theorem OccursAt.add_length_le {i : ℕ} (hne : needle ≠ [])
    (h : OccursAt needle haystack i) : i + needle.length ≤ haystack.length := by
  have hlength := congrArg List.length h
  rw [length_take, length_drop] at hlength
  have hpos := length_pos_iff.mpr hne
  omega

/-- **The first position from the start on is found.** -/
theorem findSequenceFrom_eq_some_iff (hne : needle ≠ []) {start i : ℕ} :
    findSequenceFrom needle haystack start = some i ↔
      start ≤ i ∧ OccursAt needle haystack i ∧ ∀ j, start ≤ j → j < i → ¬ OccursAt needle haystack j := by
  induction start using findSequenceFrom.induct needle haystack with
  | case1 start hshort =>
    rw [findSequenceFrom, if_pos hshort]
    refine ⟨fun h => (by cases h), fun ⟨hle, hi, _⟩ => ?_⟩
    have := hi.add_length_le hne
    omega
  | case2 start hfits hhere =>
    rw [findSequenceFrom, if_neg hfits, if_pos hhere, Option.some.injEq]
    constructor
    · rintro rfl
      exact ⟨le_refl _, hhere, fun j hle hlt => absurd hle (not_le_of_gt hlt)⟩
    · rintro ⟨hle, -, hfirst⟩
      by_contra hother
      exact hfirst start (le_refl _) (lt_of_le_of_ne hle hother) hhere
  | case3 start hfits hhere ih =>
    rw [findSequenceFrom, if_neg hfits, if_neg hhere, ih]
    constructor
    · rintro ⟨hle, hi, hfirst⟩
      refine ⟨(Nat.le_succ _).trans hle, hi, fun j hj hlt => ?_⟩
      rcases Nat.eq_or_lt_of_le hj with rfl | hj
      · exact hhere
      · exact hfirst j hj hlt
    · rintro ⟨hle, hi, hfirst⟩
      refine ⟨?_, hi, fun j hj => hfirst j ((Nat.le_succ _).trans hj)⟩
      rcases Nat.eq_or_lt_of_le hle with rfl | hlt
      · exact absurd hi hhere
      · exact hlt

theorem findSequence_of_ne_nil (hne : needle ≠ []) (start : ℕ) :
    findSequence needle haystack start = findSequenceFrom needle haystack start :=
  if_neg (by simpa using hne)

theorem findSequence_eq_none_iff (hne : needle ≠ []) {start : ℕ} :
    findSequence needle haystack start = none ↔ ∀ j, start ≤ j → ¬ OccursAt needle haystack j := by
  rw [findSequence_of_ne_nil hne]
  constructor
  · intro hnone j hj hoccurs
    -- the first occurrence would have been found
    classical
    have hexists : ∃ k, start ≤ k ∧ OccursAt needle haystack k := ⟨j, hj, hoccurs⟩
    have hfound := (findSequenceFrom_eq_some_iff hne (i := Nat.find hexists)).mpr
      ⟨(Nat.find_spec hexists).1, (Nat.find_spec hexists).2, fun k hk hlt hat =>
        Nat.find_min hexists hlt ⟨hk, hat⟩⟩
    rw [hnone] at hfound
    cases hfound
  · intro hnot
    cases hfind : findSequenceFrom needle haystack start with
    | none => rfl
    | some i =>
      obtain ⟨hle, hi, -⟩ := (findSequenceFrom_eq_some_iff hne).mp hfind
      exact absurd hi (hnot i hle)

/-- The line behind the header's, or the first line of the file. -/
def searchStart (chunk : UpdateChunk) (texts : List Text) : ℕ :=
  match chunk.chunkContext with
  | none => 0
  | some ctx => (texts.idxOf? ctx).getD texts.length + 1

/-- The site of a chunk with old lines. -/
def editSite (chunk : UpdateChunk) (texts : List Text) : Option ℕ :=
  match findSequence chunk.chunkOld texts (searchStart chunk texts) with
  | some idx => some idx
  | none => findSequence chunk.chunkOld texts 0

/-- The lines of a chunk that is put at a position. -/
def replaceWindow (preferred : Text) (chunk : UpdateChunk) (idx : ℕ)
    (fileLines : List SourceLine) : List SourceLine :=
  fileLines.take idx ++
    retainedLines chunk (chunk.chunkNew.map fun body => ⟨body, preferred⟩) fileLines idx ++
    fileLines.drop (idx + chunk.chunkOld.length)

theorem applyChunk_of_ne_nil (preferred : Text) (hold : chunk.chunkOld ≠ [])
    (fileLines : List SourceLine) :
    applyChunk preferred chunk fileLines =
      match editSite chunk (fileLines.map SourceLine.sourceText) with
      | none => .error "Failed to find expected lines in the file to update".toList
      | some idx => .ok (replaceWindow preferred chunk idx fileLines) := by
  have hempty : chunk.chunkOld.isEmpty = false := by simpa using hold
  have hstart : searchStart chunk (fileLines.map SourceLine.sourceText) =
      match chunk.chunkContext with
      | none => 0
      | some _ =>
          (match chunk.chunkContext with
          | none => 0
          | some ctx => ((fileLines.map SourceLine.sourceText).idxOf? ctx).getD
              fileLines.length) + 1 := by
    unfold searchStart
    cases chunk.chunkContext with
    | none => rfl
    | some ctx => rw [length_map]
  simp only [applyChunk, hempty, Bool.false_eq_true, if_false, editSite, hstart]
  cases findSequence chunk.chunkOld (fileLines.map SourceLine.sourceText) _ with
  | some idx => rfl
  | none => cases findSequence chunk.chunkOld (fileLines.map SourceLine.sourceText) 0 <;> rfl

theorem occursAt_of_editSite (hold : chunk.chunkOld ≠ []) {texts : List Text}
    {idx : ℕ} (h : editSite chunk texts = some idx) : OccursAt chunk.chunkOld texts idx := by
  have hfound : ∀ start, findSequence chunk.chunkOld texts start = some idx →
      OccursAt chunk.chunkOld texts idx := fun start hstart =>
    ((findSequenceFrom_eq_some_iff hold).mp (findSequence_of_ne_nil hold start ▸ hstart)).2.1
  unfold editSite at h
  split at h
  · next hfirst =>
    cases h
    exact hfound _ hfirst
  · exact hfound _ h

/-- A chunk without a header is put where its old lines begin the file. -/
theorem editSite_eq_zero {texts : List Text} (hheader : chunk.chunkContext = none)
    (hold : chunk.chunkOld ≠ []) (h : OccursAt chunk.chunkOld texts 0) :
    editSite chunk texts = some 0 := by
  have hfound : findSequenceFrom chunk.chunkOld texts 0 = some 0 :=
    (findSequenceFrom_eq_some_iff hold).mpr
      ⟨le_refl 0, h, fun j _ hlt => absurd hlt (Nat.not_lt_zero j)⟩
  rw [editSite, searchStart, hheader, findSequence_of_ne_nil hold, hfound]

/-! ### A chunk touches one window -/

/-- The file is edited by a chunk: a window with the texts of its old lines becomes lines with the
texts of its new lines, by its change lines in order. -/
def Edit (preferred : Text) (chunk : UpdateChunk) (file edited : List SourceLine) : Prop :=
  ∃ (header : Option Text) (body : List ChangeLine) (eof : Bool)
      (before window new after : List SourceLine),
    chunk = buildChunk header (body.map ChangeLine.print) eof ∧
      file = before ++ window ++ after ∧ edited = before ++ new ++ after ∧
      window.map SourceLine.sourceText = chunk.chunkOld ∧
      new.map SourceLine.sourceText = chunk.chunkNew ∧ Rewritten preferred body window new

inductive Edits (preferred : Text) : List UpdateChunk → List SourceLine → List SourceLine → Prop
  | nil (file : List SourceLine) : Edits preferred [] file file
  | cons {chunk : UpdateChunk} {chunks : List UpdateChunk} {file mid edited : List SourceLine} :
      Edit preferred chunk file mid → Edits preferred chunks mid edited →
        Edits preferred (chunk :: chunks) file edited

variable {edited : List SourceLine}

/-- **A chunk touches one window.** -/
theorem edit_of_applyChunk (hbuilt : Built chunk)
    (h : applyChunk preferred chunk file = .ok edited) : Edit preferred chunk file edited := by
  obtain ⟨header, body, eof, rfl⟩ := hbuilt
  have hold := chunkOld_buildChunk header body eof
  have hnew := chunkNew_buildChunk header body eof
  rcases eq_or_ne (buildChunk header (body.map ChangeLine.print) eof).chunkOld [] with hnil | hne
  · -- lines are inserted somewhere
    have hinsert : ∃ pos, edited = file.take pos ++
        (newTexts body).map (fun text => (⟨text, preferred⟩ : SourceLine)) ++ file.drop pos := by
      simp only [applyChunk, hnil, isEmpty_nil, if_true, hnew] at h
      exact ⟨_, (Except.ok.inj h).symm⟩
    obtain ⟨pos, rfl⟩ := hinsert
    have hrewritten : Rewritten preferred body [] (rewrite preferred body []) :=
      rewritten_rewrite (by rw [← hold, hnil]; rfl)
    have hadded : rewrite preferred body [] =
        (newTexts body).map fun text => (⟨text, preferred⟩ : SourceLine) := by
      have hlines := @mapIdx_retained preferred [] body 0 0 0 [] fun j => rfl
      rw [← hlines]
      refine ext_getElem (by simp) fun i _ _ => ?_
      rw [getElem_mapIdx, retained]
      split <;> rfl
    rw [hadded] at hrewritten
    refine ⟨header, body, eof, file.take pos, [], _, file.drop pos, rfl, ?_, rfl, ?_, ?_,
      hrewritten⟩
    · rw [List.append_nil, take_append_drop]
    · rw [hnil]
      rfl
    · rw [hrewritten.map_new, hnew]
  · rw [applyChunk_of_ne_nil preferred hne] at h
    cases hsite : editSite (buildChunk header (body.map ChangeLine.print) eof)
        (file.map SourceLine.sourceText) with
    | none =>
      rw [hsite] at h
      cases h
    | some idx =>
      rw [hsite] at h
      cases h
      have hwindow := occursAt_of_editSite hne hsite
      rw [OccursAt, ← map_drop, ← map_take, hold] at hwindow
      have hrewritten := @rewritten_rewrite preferred _ _ hwindow
      rw [rewrite_take] at hrewritten
      refine ⟨header, body, eof, file.take idx, _, _, file.drop (idx + (oldTexts body).length), rfl,
        ?_, ?_, hwindow.trans hold.symm, ?_, hrewritten⟩
      · rw [← drop_drop, append_assoc, take_append_drop, take_append_drop]
      · rw [replaceWindow, hnew, hold, retainedLines_buildChunk]
      · rw [hrewritten.map_new, hnew]

theorem edits_of_applyChunks
    (hbuilt : ∀ chunk ∈ chunks, Built chunk) (h : applyChunks preferred chunks file = .ok edited) :
    Edits preferred chunks file edited := by
  induction chunks generalizing file with
  | nil =>
    cases h
    exact .nil _
  | cons chunk chunks ih =>
    rw [forall_mem_cons] at hbuilt
    rw [applyChunks, foldlM_cons] at h
    cases hchunk : applyChunk preferred chunk file with
    | error err =>
      rw [hchunk] at h
      cases h
    | ok mid =>
      rw [hchunk] at h
      exact .cons (edit_of_applyChunk hbuilt.1 hchunk) (ih hbuilt.2 h)

/-! ### Lines and their terminators -/

def wholeLine (line : SourceLine) : Text := line.sourceText ++ line.sourceEnding

/-- The file ends with a terminator, or has no lines. -/
def terminated (original : Text) : Bool :=
  original.isEmpty || original.getLast? == some '\n' || original.getLast? == some '\r'

theorem terminated_append_cons {c : Char} (hbreak : c = '\n' ∨ c = '\r') (body rest : Text) :
    terminated (body ++ c :: rest) = terminated rest := by
  rcases eq_nil_or_concat rest with rfl | ⟨before, last, rfl⟩
  · rcases hbreak with rfl | rfl <;> simp [terminated]
  · have hsplit : body ++ c :: (before.concat last) = (body ++ c :: before) ++ [last] := by simp
    have hfirst : ((body ++ c :: before) ++ [last]).isEmpty = false := isEmpty_eq_false_iff.mpr
      (append_ne_nil_of_right_ne_nil _ (cons_ne_nil _ _))
    have hrest : (before ++ [last]).isEmpty = false := isEmpty_eq_false_iff.mpr
      (append_ne_nil_of_right_ne_nil _ (cons_ne_nil _ _))
    rw [hsplit, concat_eq_append, terminated, terminated, List.getLast?_concat,
      List.getLast?_concat, hfirst, hrest]

theorem isLineBreak_iff (c : Char) : isLineBreak c = true ↔ c = '\r' ∨ c = '\n' := by
  simp [isLineBreak]

/-- What comes behind the first line begins with its terminator. -/
theorem isLineBreak_of_dropWhile {contents rest : Text} {c : Char}
    (h : contents.dropWhile (fun c => !isLineBreak c) = c :: rest) : c = '\n' ∨ c = '\r' := by
  have hnot := List.head?_dropWhile_not (fun c => !isLineBreak c) contents
  rw [h] at hnot
  simp only [List.head?_cons, Bool.not_eq_false'] at hnot
  exact ((isLineBreak_iff c).mp hnot).symm

theorem getLast?_of_dropWhile_eq_nil {contents : Text}
    (h : contents.dropWhile (fun c => !isLineBreak c) = []) (hne : contents ≠ []) :
    terminated contents = false := by
  have hbody : ∀ c ∈ contents, isLineBreak c = false := by
    intro c hc
    simpa using dropWhile_eq_nil_iff.mp h c hc
  have hlast := hbody _ (getLast_mem hne)
  rw [terminated, List.getLast?_eq_some_getLast hne]
  rw [← Bool.not_eq_true, isLineBreak_iff, not_or] at hlast
  simp [hne, hlast.1, hlast.2]

/-- What the lines of a file are. -/
structure LinesOf (contents : Text) (fileLines : List SourceLine) : Prop where
  whole : fileLines.flatMap wholeLine = contents
  terminated : terminated contents = true → ∀ line ∈ fileLines, line.sourceEnding ≠ []
  unterminated : Patch.terminated contents = false → ∃ (before : List SourceLine) (final : SourceLine),
    fileLines = before ++ [final] ∧ final.sourceEnding = [] ∧
      ∀ line ∈ before, line.sourceEnding ≠ []

theorem LinesOf.cons {body ending rest : Text} {c : Char}
    (h : LinesOf rest fileLines) (hbreak : c = '\n' ∨ c = '\r')
    (hending : ending = [c] ∨ ending = ['\r', c]) :
    LinesOf (body ++ ending ++ rest) (⟨body, ending⟩ :: fileLines) := by
  have hne : ending ≠ [] := by rcases hending with rfl | rfl <;> simp
  have hterminated : Patch.terminated (body ++ ending ++ rest) = Patch.terminated rest := by
    rcases hending with rfl | rfl
    · rw [append_assoc]
      exact terminated_append_cons hbreak body rest
    · have hsplit : body ++ ['\r', c] ++ rest = (body ++ ['\r']) ++ c :: rest := by simp
      rw [hsplit, terminated_append_cons hbreak]
  refine ⟨?_, fun hend => ?_, fun hend => ?_⟩
  · rw [flatMap_cons, h.whole]
    rfl
  · rw [forall_mem_cons]
    exact ⟨hne, h.terminated (hterminated ▸ hend)⟩
  · obtain ⟨before, final, rfl, hfinal, hbefore⟩ := h.unterminated (hterminated ▸ hend)
    exact ⟨⟨body, ending⟩ :: before, final, rfl, hfinal, forall_mem_cons.mpr ⟨hne, hbefore⟩⟩

/-- **A file is its lines.** -/
theorem linesOf_splitFileLines (contents : Text) : LinesOf contents (splitFileLines contents) := by
  induction contents using splitFileLines.induct with
  | case1 contents hempty =>
    rw [splitFileLines, if_pos hempty, List.isEmpty_iff.mp hempty]
    exact ⟨rfl, fun _ line hline => (by cases hline), fun h => (by cases h)⟩
  | case2 contents hempty hdrop =>
    have hne : contents ≠ [] := by simpa using hempty
    have htake : contents.takeWhile (fun c => !isLineBreak c) = contents := by
      conv_rhs => rw [← takeWhile_append_dropWhile (p := fun c => !isLineBreak c) (l := contents),
        hdrop, List.append_nil]
    rw [splitFileLines, if_neg hempty]
    split
    · rw [htake]
      refine ⟨by simp [wholeLine], fun hend => ?_, fun _ => ⟨[], ⟨contents, []⟩, rfl, rfl, by simp⟩⟩
      rw [getLast?_of_dropWhile_eq_nil hdrop hne] at hend
      cases hend
    · next hcons => rw [hdrop] at hcons; cases hcons
  | case3 contents hempty c rest hdrop hcrlf ih =>
    have hsplit := takeWhile_append_dropWhile (p := fun c => !isLineBreak c) (l := contents)
    rw [splitFileLines, if_neg hempty]
    split
    · next hnil => rw [hdrop] at hnil; cases hnil
    · next c' rest' hcons =>
      obtain ⟨rfl, rfl⟩ := List.cons.inj (hdrop.symm.trans hcons)
      obtain ⟨rfl, hhead⟩ := hcrlf
      obtain ⟨tail, rfl⟩ := List.head?_eq_some_iff.mp hhead
      rw [if_pos ⟨rfl, hhead⟩]
      have hlines := @LinesOf.cons _ (contents.takeWhile fun c => !isLineBreak c) ['\r', '\n'] _ _
        ih (Or.inl rfl) (Or.inr rfl)
      rwa [append_assoc, tail_cons, cons_append, cons_append, nil_append,
        ← hdrop, hsplit] at hlines
  | case4 contents hempty c rest hdrop hcrlf ih =>
    have hsplit := takeWhile_append_dropWhile (p := fun c => !isLineBreak c) (l := contents)
    rw [splitFileLines, if_neg hempty]
    split
    · next hnil => rw [hdrop] at hnil; cases hnil
    · next c' rest' hcons =>
      obtain ⟨rfl, rfl⟩ := List.cons.inj (hdrop.symm.trans hcons)
      rw [if_neg hcrlf]
      have hlines := @LinesOf.cons _ (contents.takeWhile fun c => !isLineBreak c) [c] _ _
        ih (isLineBreak_of_dropWhile hdrop) (Or.inl rfl)
      rwa [append_assoc, cons_append, nil_append, ← hdrop, hsplit] at hlines

/-- A line with the terminator it is rendered with. -/
def renderedLine (preferred : Text) (line : SourceLine) : Text :=
  line.sourceText ++ if line.sourceEnding.isEmpty then preferred else line.sourceEnding

theorem renderedLine_of_ne_nil {line : SourceLine} (h : line.sourceEnding ≠ []) :
    renderedLine preferred line = wholeLine line := by
  rw [renderedLine, if_neg (by simpa using h), wholeLine]

/-- All lines but the last are rendered with their terminators. -/
theorem renderLines_eq (preferred : Text) (ended : Bool) (fileLines : List SourceLine) :
    renderLines preferred ended fileLines =
      fileLines.dropLast.flatMap (renderedLine preferred) ++
        match fileLines.getLast? with
        | none => []
        | some line => if ended then renderedLine preferred line else line.sourceText := by
  induction fileLines with
  | nil => rfl
  | cons line rest ih =>
    cases rest with
    | nil =>
      rw [renderLines]
      cases ended
      · exact List.append_nil _
      · rfl
    | cons second rest =>
      rw [renderLines, ih, dropLast_cons_of_ne_nil (cons_ne_nil _ _), flatMap_cons,
        List.getLast?_cons_cons, renderedLine]
      · simp only [append_assoc]
      · exact cons_ne_nil _ _

theorem joinFileLines_of_terminated {original : Text}
    (h : terminated original = true) (hlines : ∀ line ∈ fileLines, line.sourceEnding ≠ []) :
    joinFileLines preferred fileLines original = fileLines.flatMap wholeLine := by
  have hrender : joinFileLines preferred fileLines original =
      renderLines preferred (terminated original) fileLines := rfl
  have hwhole : ∀ xs : List SourceLine, (∀ line ∈ xs, line.sourceEnding ≠ []) →
      xs.flatMap (renderedLine preferred) = xs.flatMap wholeLine := fun xs hxs =>
    flatMap_congr fun line hline => renderedLine_of_ne_nil (hxs line hline)
  rw [hrender, h, renderLines_eq]
  rcases eq_nil_or_concat fileLines with rfl | ⟨before, last, rfl⟩
  · rfl
  · rw [concat_eq_append] at hlines ⊢
    rw [dropLast_concat, List.getLast?_concat, flatMap_append,
      hwhole before fun line hline => hlines line (mem_append_left _ hline)]
    simp [renderedLine_of_ne_nil (hlines last (by simp))]

theorem joinFileLines_of_unterminated {original : Text}
    {final : SourceLine} (h : terminated original = false) (hfinal : final.sourceEnding = [])
    (hlines : ∀ line ∈ fileLines, line.sourceEnding = [] → line = final) :
    joinFileLines preferred fileLines original =
      fileLines.dropLast.flatMap (fun line =>
        if line = final then final.sourceText ++ preferred else wholeLine line) ++
      (fileLines.getLast?.map SourceLine.sourceText).getD [] := by
  have hrender : joinFileLines preferred fileLines original =
      renderLines preferred (terminated original) fileLines := rfl
  rw [hrender, h, renderLines_eq]
  congr 1
  · refine flatMap_congr fun line hline => ?_
    split
    · next heq =>
      rw [heq, renderedLine, hfinal]
      rfl
    · next hne =>
      exact renderedLine_of_ne_nil fun hnil =>
        hne (hlines line (mem_of_mem_dropLast hline) hnil)
  · cases fileLines.getLast? <;> rfl

theorem preferredEnding_ne_nil (fileLines : List SourceLine) : preferredEnding fileLines ≠ [] := by
  unfold preferredEnding
  split
  · split
    · exact cons_ne_nil _ _
    · next h => simpa using h
  · exact cons_ne_nil _ _

/-! ### Lines outside the windows -/

/-- A line that the edits leave is of the file, or it is new. -/
theorem Edits.mem
    (h : Edits preferred chunks file edited) {line : SourceLine} (hline : line ∈ edited) :
    line ∈ file ∨ line.sourceEnding = preferred := by
  induction h with
  | nil => exact Or.inl hline
  | cons hedit _ ih =>
    rcases ih hline with hmid | hnew
    · obtain ⟨-, body, -, before, window, new, after, -, rfl, rfl, -, -, hrewritten⟩ := hedit
      simp only [mem_append] at hmid ⊢
      rcases hmid with (hbefore | hnew) | hafter
      · exact Or.inl (Or.inl (Or.inl hbefore))
      · exact (hrewritten.mem_new hnew).imp_left fun hwindow => Or.inl (Or.inr hwindow)
      · exact Or.inl (Or.inr hafter)
    · exact Or.inr hnew

/-- All lines of the chunk are context. -/
def AllContext (chunk : UpdateChunk) : Prop :=
  ∃ (header : Option Text) (texts : List Text) (eof : Bool),
    chunk = buildChunk header (texts.map fun text => ChangeLine.print ⟨.context, text⟩) eof

theorem length_contextIndices (body : List ChangeLine) (oldIndex newIndex : ℕ) :
    (contextIndices oldIndex newIndex (body.map ChangeLine.print)).length =
      (body.filter fun line => line.mark = .context).length := by
  induction body generalizing oldIndex newIndex with
  | nil => rfl
  | cons change body ih =>
    rcases change with ⟨mark, text⟩
    cases mark
    · exact congrArg Nat.succ (ih (oldIndex + 1) (newIndex + 1))
    · exact ih (oldIndex + 1) newIndex
    · exact ih oldIndex (newIndex + 1)

/-- Whatever change lines a chunk of context is built from, they are context lines. -/
theorem AllContext.mark_eq {header : Option Text} {body : List ChangeLine} {eof : Bool}
    (h : AllContext (buildChunk header (body.map ChangeLine.print) eof)) :
    ∀ line ∈ body, line.mark = .context := by
  obtain ⟨header', texts, eof', heq⟩ := h
  have hprint : texts.map (fun text => ChangeLine.print ⟨.context, text⟩) =
      (texts.map fun text => (⟨.context, text⟩ : ChangeLine)).map ChangeLine.print := by
    rw [List.map_map]
    rfl
  rw [hprint] at heq
  have hcontext := congrArg (fun chunk => chunk.chunkContextIndices.length) heq
  have hold := congrArg (fun chunk => chunk.chunkOld.length) heq
  have hnew := congrArg (fun chunk => chunk.chunkNew.length) heq
  simp only [chunkOld_buildChunk, chunkNew_buildChunk, oldTexts, newTexts, length_map] at hold hnew
  rw [buildChunk, buildChunk] at hcontext
  simp only [length_contextIndices] at hcontext
  have hall : ∀ p : ChangeLine → Bool, (∀ text, p ⟨.context, text⟩ = true) →
      ((texts.map fun text => (⟨.context, text⟩ : ChangeLine)).filter p).length = texts.length := by
    intro p hp
    rw [filter_eq_self.mpr, length_map]
    intro line hline
    obtain ⟨text, -, rfl⟩ := List.mem_map.mp hline
    exact hp text
  rw [hall _ fun _ => by simp] at hcontext hold hnew
  -- the context lines are as many as the old lines and as the new lines
  intro line hline
  have holdEq : body.filter (fun line => line.mark = .context) =
      body.filter fun line => line.mark ≠ .added :=
    (monotone_filter_right body fun change hchange => by
      simp only [decide_eq_true_eq] at hchange ⊢
      simp [hchange]).eq_of_length (hcontext.trans hold.symm)
  have hnewEq : body.filter (fun line => line.mark = .context) =
      body.filter fun line => line.mark ≠ .removed :=
    (monotone_filter_right body fun change hchange => by
      simp only [decide_eq_true_eq] at hchange ⊢
      simp [hchange]).eq_of_length (hcontext.trans hnew.symm)
  rcases line with ⟨mark, text⟩
  cases mark with
  | context => rfl
  | removed =>
    have hmem : (⟨.removed, text⟩ : ChangeLine) ∈ body.filter fun line => line.mark = .context :=
      holdEq ▸ mem_filter.mpr ⟨hline, by simp⟩
    simpa using (mem_filter.mp hmem).2
  | added =>
    have hmem : (⟨.added, text⟩ : ChangeLine) ∈ body.filter fun line => line.mark = .context :=
      hnewEq ▸ mem_filter.mpr ⟨hline, by simp⟩
    simpa using (mem_filter.mp hmem).2

theorem Edits.eq_of_allContext
    (h : Edits preferred chunks file edited) (hchunks : ∀ chunk ∈ chunks, AllContext chunk) :
    edited = file := by
  induction h with
  | nil => rfl
  | cons hedit _ ih =>
    rw [forall_mem_cons] at hchunks
    obtain ⟨header, body, eof, before, window, new, after, rfl, rfl, rfl, -, -, hrewritten⟩ := hedit
    rw [ih hchunks.2, hrewritten.eq_of_context hchunks.1.mark_eq]

/-- **An update touches only the windows of its chunks.**  The file, cut into lines with their
terminators, is edited chunk by chunk: one window of lines whose texts are the old lines becomes the
new lines, of which the context lines stay as they stand, and what is outside stays.  What is then
put together are these lines with their terminators; in a file without a final terminator, the line
that was last gains the preferred one when it stops being last, and the line that becomes last loses
its own.  Chunks that are all context leave the file as it is. -/
theorem update_touches_windows {chunks : List UpdateChunk} {original new : Text}
    (hbuilt : ∀ chunk ∈ chunks, Built chunk) (h : updatedContents chunks original = .ok new) :
    ∃ edited : List SourceLine,
      Edits (preferredEnding (splitFileLines original)) chunks (splitFileLines original) edited ∧
      (splitFileLines original).flatMap wholeLine = original ∧
      (terminated original = true →
        (∀ line ∈ edited, line.sourceEnding ≠ []) ∧ new = edited.flatMap wholeLine) ∧
      (terminated original = false → ∃ (before : List SourceLine) (final : SourceLine),
        splitFileLines original = before ++ [final] ∧ final.sourceEnding = [] ∧
        (∀ line ∈ before, line.sourceEnding ≠ []) ∧
        (∀ line ∈ edited, line.sourceEnding = [] → line = final) ∧
        new = edited.dropLast.flatMap (fun line =>
            if line = final then
              final.sourceText ++ preferredEnding (splitFileLines original)
            else wholeLine line) ++
          (edited.getLast?.map SourceLine.sourceText).getD []) ∧
      ((∀ chunk ∈ chunks, AllContext chunk) → new = original) := by
  have hfile := linesOf_splitFileLines original
  have hpreferred := preferredEnding_ne_nil (splitFileLines original)
  unfold updatedContents at h
  dsimp only at h
  cases happly : applyChunks (preferredEnding (splitFileLines original)) chunks
      (splitFileLines original) with
  | error err =>
    rw [happly] at h
    cases h
  | ok edited =>
    rw [happly] at h
    have hnew : new = joinFileLines (preferredEnding (splitFileLines original)) edited original :=
      (Except.ok.inj h).symm
    have hedits := edits_of_applyChunks hbuilt happly
    have hjoined : terminated original = true →
        (∀ line ∈ edited, line.sourceEnding ≠ []) ∧ new = edited.flatMap wholeLine := by
      intro hend
      have hlines : ∀ line ∈ edited, line.sourceEnding ≠ [] := by
        intro line hline
        rcases hedits.mem hline with hold | hadded
        · exact hfile.terminated hend line hold
        · rw [hadded]
          exact hpreferred
      exact ⟨hlines, hnew.trans (joinFileLines_of_terminated hend hlines)⟩
    have hrejoined : terminated original = false → ∃ (before : List SourceLine) (final : SourceLine),
        splitFileLines original = before ++ [final] ∧ final.sourceEnding = [] ∧
        (∀ line ∈ before, line.sourceEnding ≠ []) ∧
        (∀ line ∈ edited, line.sourceEnding = [] → line = final) ∧
        new = edited.dropLast.flatMap (fun line =>
            if line = final then
              final.sourceText ++ preferredEnding (splitFileLines original)
            else wholeLine line) ++
          (edited.getLast?.map SourceLine.sourceText).getD [] := by
      intro hend
      obtain ⟨before, final, hsplit, hfinal, hbefore⟩ := hfile.unterminated hend
      have hlines : ∀ line ∈ edited, line.sourceEnding = [] → line = final := by
        intro line hline hnil
        rcases hedits.mem hline with hold | hadded
        · rw [hsplit] at hold
          rcases mem_append.mp hold with hold | hold
          · exact absurd hnil (hbefore line hold)
          · exact mem_singleton.mp hold
        · exact absurd (hadded.symm.trans hnil) hpreferred
      exact ⟨before, final, hsplit, hfinal, hbefore, hlines,
        hnew.trans (joinFileLines_of_unterminated hend hfinal hlines)⟩
    refine ⟨edited, hedits, hfile.whole, hjoined, hrejoined, fun hcontext => ?_⟩
    obtain rfl := hedits.eq_of_allContext hcontext
    cases hend : terminated original with
    | true => rw [(hjoined hend).2, hfile.whole]
    | false =>
      obtain ⟨before, final, hsplit, hfinal, hbefore, -, hresult⟩ := hrejoined hend
      have hwhole := hfile.whole
      rw [hsplit, flatMap_append, flatMap_singleton, wholeLine, hfinal,
        List.append_nil] at hwhole
      rw [hresult, hsplit, dropLast_concat, List.getLast?_concat, ← hwhole]
      congr 1
      refine flatMap_congr fun line hline => if_neg fun heq => ?_
      exact hbefore line hline (heq ▸ hfinal)

/-- Two lines with different terminators, the last of them without one. -/
def exampleFile : Text := ['a', '\r', '\n', 'b']

def exampleChunk : UpdateChunk :=
  buildChunk none ([⟨.context, ['a']⟩, ⟨.removed, ['b']⟩, ⟨.added, ['c']⟩].map ChangeLine.print) false

theorem splitFileLines_exampleFile :
    splitFileLines exampleFile = [⟨['a'], ['\r', '\n']⟩, ⟨['b'], []⟩] := by
  rw [exampleFile, splitFileLines, if_neg (by simp)]
  split
  · next h => simp [isLineBreak] at h
  · next c rest h =>
    obtain ⟨rfl, rfl⟩ : '\r' = c ∧ ['\n', 'b'] = rest := by simpa [isLineBreak] using h
    rw [if_pos ⟨rfl, rfl⟩, splitFileLines, if_neg (by simp)]
    split
    · simp [isLineBreak]
    · next h' => simp [isLineBreak] at h'

theorem updatedContents_exampleFile :
    updatedContents [exampleChunk] exampleFile = .ok ['a', '\r', '\n', 'c'] := by
  have hsite : editSite exampleChunk [['a'], ['b']] = some 0 :=
    editSite_eq_zero rfl (by decide) rfl
  simp only [updatedContents, splitFileLines_exampleFile, applyChunks, foldlM_cons]
  rw [applyChunk_of_ne_nil _ (by decide), map_cons, map_cons, map_nil, hsite]
  rfl

theorem update_touches_windows_in_exampleFile :
    updatedContents [exampleChunk] exampleFile = .ok ['a', '\r', '\n', 'c'] ∧
      ∃ edited, Edits ['\r', '\n'] [exampleChunk] [⟨['a'], ['\r', '\n']⟩, ⟨['b'], []⟩] edited := by
  have hbuilt : ∀ chunk ∈ [exampleChunk], Built chunk := by
    intro chunk hchunk
    rw [mem_singleton.mp hchunk]
    exact ⟨_, _, _, rfl⟩
  obtain ⟨edited, hedits, -⟩ := update_touches_windows hbuilt updatedContents_exampleFile
  rw [splitFileLines_exampleFile] at hedits
  exact ⟨updatedContents_exampleFile, edited, hedits⟩

/-! ### Chunks at the end of a file -/

/-- **Which occurrence a chunk with old lines edits.**  Where the old lines are the last lines of the
file, some occurrence is edited, also for a chunk with an end-of-file marker; it is the last lines
exactly if the old lines do not occur before them at or behind the start of the search, nor, when
the search starts behind the last lines, anywhere before them. -/
theorem eof_chunk_final_iff (preferred : Text) {chunk : UpdateChunk} {fileLines : List SourceLine}
    {before : List Text} (hold : chunk.chunkOld ≠ [])
    (hlast : fileLines.map SourceLine.sourceText = before ++ chunk.chunkOld) :
    ∃ site, editSite chunk (fileLines.map SourceLine.sourceText) = some site ∧
      site ≤ before.length ∧
      applyChunk preferred chunk fileLines =
        .ok (fileLines.take site ++
          retainedLines chunk (chunk.chunkNew.map fun body => ⟨body, preferred⟩) fileLines site ++
          fileLines.drop (site + chunk.chunkOld.length)) ∧
      (site = before.length ↔ ∀ i < before.length,
        searchStart chunk (fileLines.map SourceLine.sourceText) ≤ i ∨
            before.length < searchStart chunk (fileLines.map SourceLine.sourceText) →
          ¬ OccursAt chunk.chunkOld (fileLines.map SourceLine.sourceText) i) := by
  rw [applyChunk_of_ne_nil preferred hold, hlast]
  generalize hstart : searchStart chunk (before ++ chunk.chunkOld) = start
  have hfinal : OccursAt chunk.chunkOld (before ++ chunk.chunkOld) before.length := by
    rw [OccursAt, drop_left, take_length]
  have hbound : ∀ {i}, OccursAt chunk.chunkOld (before ++ chunk.chunkOld) i → i ≤ before.length := by
    intro i hi
    have hle := hi.add_length_le hold
    rw [length_append] at hle
    omega
  -- the first occurrence from a position up to the last lines on
  have hfind : ∀ from', from' ≤ before.length → ∃ site,
      findSequence chunk.chunkOld (before ++ chunk.chunkOld) from' = some site ∧
      OccursAt chunk.chunkOld (before ++ chunk.chunkOld) site ∧ from' ≤ site ∧
      (site = before.length ↔ ∀ i < before.length, from' ≤ i →
        ¬ OccursAt chunk.chunkOld (before ++ chunk.chunkOld) i) := by
    intro from' hle
    cases hsite : findSequence chunk.chunkOld (before ++ chunk.chunkOld) from' with
    | none => exact absurd hfinal ((findSequence_eq_none_iff hold).mp hsite _ hle)
    | some site =>
      rw [findSequence_of_ne_nil hold] at hsite
      obtain ⟨hfrom, hoccurs, hfirst⟩ := (findSequenceFrom_eq_some_iff hold).mp hsite
      refine ⟨site, rfl, hoccurs, hfrom, ?_⟩
      constructor
      · rintro rfl
        exact fun i hlt hi => hfirst i hi hlt
      · intro hnone
        by_contra hother
        exact hnone site (lt_of_le_of_ne (hbound hoccurs) hother) hfrom hoccurs
  rcases le_or_gt start before.length with hle | hgt
  · obtain ⟨site, hsite, hoccurs, -, hiff⟩ := hfind start hle
    have hedit : editSite chunk (before ++ chunk.chunkOld) = some site := by
      rw [editSite, hstart, hsite]
    rw [hedit]
    refine ⟨site, rfl, hbound hoccurs, rfl, hiff.trans ?_⟩
    refine forall₂_congr fun i hi => ?_
    rw [or_iff_left (not_lt_of_ge hle)]
  · -- nothing is found behind the last lines, so that the search starts again
    have hnone : findSequence chunk.chunkOld (before ++ chunk.chunkOld) start = none :=
      (findSequence_eq_none_iff hold).mpr fun j hj hoccurs =>
        absurd (hbound hoccurs) (not_le_of_gt (lt_of_lt_of_le hgt hj))
    obtain ⟨site, hsite, hoccurs, -, hiff⟩ := hfind 0 (Nat.zero_le _)
    have hedit : editSite chunk (before ++ chunk.chunkOld) = some site := by
      rw [editSite, hstart, hnone, hsite]
    rw [hedit]
    refine ⟨site, rfl, hbound hoccurs, rfl, hiff.trans ?_⟩
    refine forall₂_congr fun i hi => ?_
    rw [or_iff_right (not_le_of_gt (lt_trans hi hgt))]
    exact ⟨fun h _ => h (Nat.zero_le i), fun h _ => h hgt⟩

/-- Two equal lines, and a chunk that is to change the last of them. -/
def repeatedLines : List SourceLine := [⟨['a'], ['\n']⟩, ⟨['a'], ['\n']⟩]

def finalChunk : UpdateChunk :=
  buildChunk none ([⟨.removed, ['a']⟩, ⟨.added, ['b']⟩].map ChangeLine.print) true

theorem editSite_repeatedLines :
    editSite finalChunk (repeatedLines.map SourceLine.sourceText) = some 0 :=
  editSite_eq_zero rfl (by decide) rfl

/-- The chunk has old lines, which are the last line, and the first line is changed. -/
theorem eof_chunk_edits_first :
    finalChunk.chunkEof = true ∧
      repeatedLines.map SourceLine.sourceText = [['a']] ++ finalChunk.chunkOld ∧
      applyChunk ['\n'] finalChunk repeatedLines = .ok [⟨['b'], ['\n']⟩, ⟨['a'], ['\n']⟩] := by
  refine ⟨rfl, rfl, ?_⟩
  rw [applyChunk_of_ne_nil _ (by decide), editSite_repeatedLines]
  rfl

theorem eof_chunk_final_iff_in_repeatedLines :
    ∃ site, editSite finalChunk [['a'], ['a']] = some site ∧ site ≤ 1 ∧ site ≠ 1 := by
  obtain ⟨site, hsite, hle, -, hiff⟩ :=
    @eof_chunk_final_iff ['\n'] finalChunk repeatedLines [['a']] (by decide) rfl
  exact ⟨site, hsite, hle, fun heq => hiff.mp heq 0 Nat.zero_lt_one (Or.inl (Nat.zero_le 0)) rfl⟩

end Patch

end HaskellAgent
