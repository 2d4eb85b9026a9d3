import HaskellAgent.Dialect.PatchChunks

/-!
# Validate, then commit

`apply_patch` first prepares all hunks against an overlay over the files, which it only reads, and
then replays the writes and deletes it prepared.  A patch that fails in preparation has changed
nothing.

File systems map resolved paths to files.  A file that reads as binary is refused when a patch wants
to update it; what a patch itself has written is its text.  Resolving a path, the text of the
exception for a missing file and the display of a path are parameters.
-/

open List

namespace HaskellAgent

/-- A hunk of a patch.  Paths are as the patch spells them. -/
inductive Hunk
  | addFile (path : Text) (contents : Text)
  | deleteFile (path : Text)
  | updateFile (path : Text) (moveTo : Option Text) (chunks : List UpdateChunk)

/-- A file: its text, or a file that reads as binary. -/
inductive DiskFile
  | text (contents : Text)
  | binary
  deriving DecidableEq

/-- The files at resolved paths. -/
abbrev FileSystem (ρ : Type) := ρ → Option DiskFile

/-- What the overlay knows of a path. -/
inductive VirtualFile
  | virtualContents (contents : Text)
  | virtualMissing

inductive PreparedAction (ρ : Type)
  | preparedWrite (path : ρ) (contents : Text)
  | preparedDelete (path : ρ)

/-- The overlay, and the actions and the paths for the summary, latest first. -/
structure Preparation (ρ : Type) where
  files : ρ → Option VirtualFile
  actions : List (PreparedAction ρ)
  added : List Text
  modified : List Text
  deleted : List Text

def Preparation.empty {ρ : Type} : Preparation ρ := ⟨fun _ => none, [], [], [], []⟩

/-- The files and the actions issued on them, in order. -/
structure PatchWorld (ρ : Type) where
  files : FileSystem ρ
  issued : List (PreparedAction ρ)

/-- An action that fails: the text of its exception, and the file it leaves behind. -/
structure ActionFault where
  message : Text
  left : Option DiskFile

section Patch

variable {ρ : Type} [DecidableEq ρ] (resolvePath : Text → Except Text ρ) (missing : ρ → Text)
  (display : Text → Text)

/-! ### Preparation -/

def readTextFile (fs : FileSystem ρ) (path : ρ) : Except Text Text :=
  match fs path with
  | none => .error ("Failed to read file: ".toList ++ missing path)
  | some .binary => .error "Cannot read binary file".toList
  | some (.text contents) => .ok contents

def virtualFileExists (fs : FileSystem ρ) (files : ρ → Option VirtualFile) (resolved : ρ) : Bool :=
  match files resolved with
  | some (.virtualContents _) => true
  | some .virtualMissing => false
  | none => (fs resolved).isSome

def virtualFileContents (fs : FileSystem ρ) (files : ρ → Option VirtualFile) (path : Text)
    (resolved : ρ) : Except Text Text :=
  match files resolved with
  | some (.virtualContents contents) => .ok contents
  | some .virtualMissing =>
      .error ("Failed to update file '".toList ++ path ++ "': file does not exist".toList)
  | none => readTextFile missing fs resolved

/-- Prepare one hunk. -/
def prepareHunk (fs : FileSystem ρ) (st : Preparation ρ) : Hunk → Except Text (Preparation ρ)
  | .addFile path contents => do
      let resolved ← resolvePath path
      pure { st with
        files := Function.update st.files resolved (some (.virtualContents contents))
        actions := .preparedWrite resolved contents :: st.actions
        added := path :: st.added }
  | .deleteFile path => do
      let resolved ← resolvePath path
      if virtualFileExists fs st.files resolved then
        pure { st with
          files := Function.update st.files resolved (some .virtualMissing)
          actions := .preparedDelete resolved :: st.actions
          deleted := path :: st.deleted }
      else .error ("Failed to delete file ".toList ++ path)
  | .updateFile path moveTo chunks => do
      let resolved ← resolvePath path
      -- what an earlier hunk wrote is read back from the overlay
      let original ← virtualFileContents missing fs st.files path resolved
      let newContents ← (updatedContents chunks original).mapError fun err =>
        "Failed to update file '".toList ++ path ++ "': ".toList ++ err
      match moveTo with
      | none =>
          pure { st with
            files := Function.update st.files resolved (some (.virtualContents newContents))
            actions := .preparedWrite resolved newContents :: st.actions
            modified := path :: st.modified }
      | some dest => do
          let destResolved ← resolvePath dest
          pure { st with
            -- source and destination may be one path, which is then missing
            files := Function.update
              (Function.update st.files destResolved (some (.virtualContents newContents)))
              resolved (some .virtualMissing)
            actions := .preparedDelete resolved :: .preparedWrite destResolved newContents
              :: st.actions
            modified := dest :: st.modified }

def unlinesText (lines : List Text) : Text := lines.flatMap (· ++ ['\n'])

def summary (added modified deleted : List Text) : Text :=
  unlinesText ("Success. Updated the following files:".toList
    :: (added.reverse.map fun p => "A ".toList ++ display p)
      ++ (modified.reverse.map fun p => "M ".toList ++ display p)
      ++ (deleted.reverse.map fun p => "D ".toList ++ display p))

/-- Prepare the remaining hunks. -/
def prepareFrom (fs : FileSystem ρ) :
    List Hunk → Preparation ρ → Except Text (List (PreparedAction ρ) × Text)
  | [], st => .ok (st.actions.reverse, summary display st.added st.modified st.deleted)
  | hunk :: rest, st => do
      let next ← prepareHunk resolvePath missing fs st hunk
      prepareFrom fs rest next

def prepareHunks (fs : FileSystem ρ) (hunks : List Hunk) :
    Except Text (List (PreparedAction ρ) × Text) :=
  prepareFrom resolvePath missing display fs hunks Preparation.empty

/-! ### Commit -/

/-- Issue one action, which fails if a fault is given or a file to delete is missing. -/
def applyPreparedAction (fault : Option ActionFault) (w : PatchWorld ρ)
    (action : PreparedAction ρ) : PatchWorld ρ × Except Text Unit :=
  let issued := w.issued ++ [action]
  match action, fault with
  | .preparedWrite path contents, none =>
      (⟨Function.update w.files path (some (.text contents)), issued⟩, .ok ())
  | .preparedWrite path _, some fault =>
      (⟨Function.update w.files path fault.left, issued⟩,
        .error ("Failed to write file: ".toList ++ fault.message))
  | .preparedDelete path, none =>
      if (w.files path).isSome then (⟨Function.update w.files path none, issued⟩, .ok ())
      else (⟨w.files, issued⟩, .error ("Failed to delete file: ".toList ++ missing path))
  | .preparedDelete path, some fault =>
      (⟨Function.update w.files path fault.left, issued⟩,
        .error ("Failed to delete file: ".toList ++ fault.message))

/-- Issue the actions in turn, up to the first that fails.  The faults are by position. -/
def applyPreparedActions (faults : ℕ → Option ActionFault) (w : PatchWorld ρ) :
    List (PreparedAction ρ) → PatchWorld ρ × Except Text Unit
  | [] => (w, .ok ())
  | action :: rest =>
      -- the position of an action is the number of those issued before it
      match applyPreparedAction missing (faults w.issued.length) w action with
      | (next, .error err) => (next, .error err)
      | (next, .ok ()) => applyPreparedActions faults next rest

def applyHunks (faults : ℕ → Option ActionFault) (fs : FileSystem ρ) (hunks : List Hunk) :
    PatchWorld ρ × Except Text Text :=
  match prepareHunks resolvePath missing display fs hunks with
  | .error err =>
      (⟨fs, []⟩, .error ("Patch validation failed; no files were changed.\n".toList ++ err))
  | .ok (actions, resultSummary) =>
      match applyPreparedActions missing faults ⟨fs, []⟩ actions with
      | (w, .error err) =>
          (w, .error
            ("Patch commit failed; files may have been partially changed.\n".toList ++ err))
      | (w, .ok ()) => (w, .ok resultSummary)

/-! ### What a patch means -/

/-- A hunk on the files themselves: a move writes the destination, then deletes the source. -/
def interpretHunk (fs : FileSystem ρ) : Hunk → Except Text (FileSystem ρ)
  | .addFile path contents => do
      let resolved ← resolvePath path
      pure (Function.update fs resolved (some (.text contents)))
  | .deleteFile path => do
      let resolved ← resolvePath path
      if (fs resolved).isSome then pure (Function.update fs resolved none)
      else .error ("Failed to delete file ".toList ++ path)
  | .updateFile path moveTo chunks => do
      let resolved ← resolvePath path
      let original ← readTextFile missing fs resolved
      let newContents ← updatedContents chunks original
      match moveTo with
      | none => pure (Function.update fs resolved (some (.text newContents)))
      | some dest => do
          let destResolved ← resolvePath dest
          let written := Function.update fs destResolved (some (.text newContents))
          pure (Function.update written resolved none)

/-- The hunks one after another, up to the first that fails. -/
def interpretHunks (fs : FileSystem ρ) (hunks : List Hunk) : Except Text (FileSystem ρ) :=
  hunks.foldlM (interpretHunk resolvePath missing) fs

/-! ### The overlay shows the files of the patch so far -/

/-- The files the overlay shows. -/
def Preparation.view (fs : FileSystem ρ) (st : Preparation ρ) : FileSystem ρ := fun path =>
  match st.files path with
  -- what the patch wrote is text, whatever was there
  | some (.virtualContents contents) => some (.text contents)
  | some .virtualMissing => none
  | none => fs path

/-- What a file of the overlay looks like. -/
def VirtualFile.disk : VirtualFile → Option DiskFile
  | .virtualContents contents => some (.text contents)
  | .virtualMissing => none

omit [DecidableEq ρ] in
@[simp] theorem view_empty (fs : FileSystem ρ) : Preparation.empty.view fs = fs := rfl

theorem view_update (fs : FileSystem ρ) (st : Preparation ρ) (path : ρ) (file : VirtualFile) :
    Preparation.view fs { st with files := Function.update st.files path (some file) }
      = Function.update (st.view fs) path file.disk := by
  funext other
  by_cases hother : other = path
  · subst hother
    cases file <;> simp [Preparation.view, VirtualFile.disk]
  · simp [Preparation.view, hother]

omit [DecidableEq ρ] in
theorem virtualFileExists_eq (fs : FileSystem ρ) (st : Preparation ρ) (path : ρ) :
    virtualFileExists fs st.files path = (st.view fs path).isSome := by
  unfold virtualFileExists Preparation.view
  split <;> rfl

/-- Two computations that fail together, and succeed together with related results. -/
inductive SameOutcome {α β : Type} (R : α → β → Prop) : Except Text α → Except Text β → Prop
  | ok {a : α} {b : β} : R a b → SameOutcome R (.ok a) (.ok b)
  | error (e e' : Text) : SameOutcome R (.error e) (.error e')

namespace SameOutcome

variable {α β γ δ : Type} {R : α → β → Prop} {S : γ → δ → Prop}

theorem refl (x : Except Text α) : SameOutcome Eq x x := by
  cases x with
  | error e => exact .error e e
  | ok a => exact .ok rfl

variable {x : Except Text α} {y : Except Text β}

theorem bind (h : SameOutcome R x y)
    {f : α → Except Text γ} {g : β → Except Text δ}
    (hfg : ∀ a b, R a b → SameOutcome S (f a) (g b)) : SameOutcome S (x >>= f) (y >>= g) := by
  cases h with
  | ok hab => exact hfg _ _ hab
  | error e e' => exact .error e e'

theorem imp {R' : α → β → Prop} (h : SameOutcome R x y)
    (himp : ∀ a b, R a b → R' a b) : SameOutcome R' x y := by
  cases h with
  | ok hab => exact .ok (himp _ _ hab)
  | error e e' => exact .error e e'

theorem mapError (x : Except Text α) (f : Text → Text) : SameOutcome Eq (x.mapError f) x := by
  cases x with
  | error e => exact .error _ e
  | ok a => exact .ok rfl

theorem error_iff (h : SameOutcome R x y) :
    (∃ e, x = .error e) ↔ ∃ e, y = .error e := by
  cases h with
  | ok hab | error e e' => simp

end SameOutcome

omit [DecidableEq ρ] in
/-- Reading through the overlay is reading the files it shows. -/
theorem virtualFileContents_agrees (fs : FileSystem ρ) (st : Preparation ρ) (path : Text)
    (resolved : ρ) :
    SameOutcome (fun contents direct => contents = direct ∧ (st.view fs resolved).isSome)
      (virtualFileContents missing fs st.files path resolved)
      (readTextFile missing (st.view fs) resolved) := by
  unfold virtualFileContents readTextFile Preparation.view
  -- the overlay knows the path, or the file of the workspace is read
  cases st.files resolved with
  | none =>
    simp only
    cases fs resolved with
    | none => exact .error _ _
    | some file =>
      cases file with
      | binary => exact .error _ _
      | text contents => exact .ok ⟨rfl, rfl⟩
  | some file =>
    cases file with
    | virtualContents contents => exact .ok ⟨rfl, rfl⟩
    | virtualMissing => exact .error _ _

/-- The actions, with no fault, take these files to those. -/
def Commits (missing : ρ → Text) (before : FileSystem ρ) (actions : List (PreparedAction ρ))
    (after : FileSystem ρ) : Prop :=
  ∀ issued, applyPreparedActions missing (fun _ => none) ⟨before, issued⟩ actions
    = (⟨after, issued ++ actions⟩, .ok ())

variable {missing}

theorem Commits.nil (fs : FileSystem ρ) : Commits missing fs [] fs := by
  intro issued
  rw [List.append_nil]
  rfl

theorem applyPreparedActions_append (faults : ℕ → Option ActionFault) (w : PatchWorld ρ)
    (first second : List (PreparedAction ρ)) :
    applyPreparedActions missing faults w (first ++ second)
      = match applyPreparedActions missing faults w first with
        | (next, .error err) => (next, .error err)
        | (next, .ok ()) => applyPreparedActions missing faults next second := by
  -- each action depends on the actions issued before it
  induction first generalizing w with
  | nil => rfl
  | cons action rest ih =>
    rw [cons_append, applyPreparedActions, applyPreparedActions]
    cases applyPreparedAction missing (faults w.issued.length) w action with
    | mk next result =>
      cases result with
      | error err => rfl
      | ok u => exact ih next

theorem Commits.append {before mid after : FileSystem ρ} {first second : List (PreparedAction ρ)}
    (h : Commits missing before first mid) (h' : Commits missing mid second after) :
    Commits missing before (first ++ second) after := by
  intro issued
  rw [applyPreparedActions_append, h issued, ← append_assoc]
  exact h' (issued ++ first)

theorem Commits.write (fs : FileSystem ρ) (path : ρ) (contents : Text) :
    Commits missing fs [.preparedWrite path contents]
      (Function.update fs path (some (.text contents))) := by
  intro issued
  rfl

theorem Commits.delete {fs : FileSystem ρ} {path : ρ} (h : (fs path).isSome) :
    Commits missing fs [.preparedDelete path] (Function.update fs path none) := by
  intro issued
  simp [applyPreparedActions, applyPreparedAction, h]

variable (missing)

/-- **One hunk on the overlay** is that hunk on the files the overlay shows, and its actions take
the files from the one to the other. -/
theorem prepareHunk_agrees (fs : FileSystem ρ) (st : Preparation ρ) (hunk : Hunk) :
    SameOutcome
      (fun next after => next.view fs = after ∧ ∃ new, next.actions = new.reverse ++ st.actions ∧
        Commits missing (st.view fs) new after)
      (prepareHunk resolvePath missing fs st hunk)
      (interpretHunk resolvePath missing (st.view fs) hunk) := by
  cases hunk with
  | addFile path contents =>
    refine (SameOutcome.refl (resolvePath path)).bind ?_
    rintro resolved _ rfl
    exact .ok ⟨view_update fs st resolved (.virtualContents contents), _, rfl, .write _ _ _⟩
  | deleteFile path =>
    refine (SameOutcome.refl (resolvePath path)).bind ?_
    rintro resolved _ rfl
    rw [virtualFileExists_eq]
    by_cases hexists : (st.view fs resolved).isSome = true
    · rw [if_pos hexists, if_pos hexists]
      exact .ok ⟨view_update fs st resolved .virtualMissing, _, rfl, .delete hexists⟩
    · rw [if_neg hexists, if_neg hexists]
      exact .error _ _
  | updateFile path moveTo chunks =>
    refine (SameOutcome.refl (resolvePath path)).bind ?_
    rintro resolved _ rfl
    refine (virtualFileContents_agrees missing fs st path resolved).bind ?_
    -- the errors may differ in their texts, so only that they fail together is kept
    rintro original _ ⟨rfl, hexists⟩
    refine (SameOutcome.mapError (updatedContents chunks original) _).bind ?_
    rintro newContents _ rfl
    cases moveTo with
    | none =>
      exact .ok ⟨view_update fs st resolved (.virtualContents newContents), _, rfl, .write _ _ _⟩
    | some dest =>
      refine (SameOutcome.refl (resolvePath dest)).bind ?_
      rintro destResolved _ rfl
      -- the source is still there when it is deleted, also where it is the destination
      have hwritten : (Function.update (st.view fs) destResolved (some (.text newContents))
          resolved).isSome := by
        by_cases hsame : resolved = destResolved
        · rw [hsame, Function.update_self]
          rfl
        · rw [Function.update_of_ne hsame]
          exact hexists
      refine .ok ⟨?_, [.preparedWrite destResolved newContents, .preparedDelete resolved], rfl,
        (Commits.write _ _ _).append (.delete hwritten)⟩
      exact (view_update fs { st with
        files := Function.update st.files destResolved (some (.virtualContents newContents)) }
        resolved .virtualMissing).trans
        (by rw [view_update]; rfl)

/-- The rest of a patch. -/
theorem prepareFrom_agrees (fs : FileSystem ρ) (hunks : List Hunk) (st : Preparation ρ) :
    SameOutcome
      (fun prepared after => ∃ new, prepared.1 = st.actions.reverse ++ new ∧
        Commits missing (st.view fs) new after)
      (prepareFrom resolvePath missing display fs hunks st)
      (hunks.foldlM (interpretHunk resolvePath missing) (st.view fs)) := by
  induction hunks generalizing st with
  | nil => exact .ok ⟨[], by simp, .nil _⟩
  | cons hunk rest ih =>
    rw [prepareFrom, foldlM_cons]
    -- one hunk, then the rest on the files the overlay then shows
    refine (prepareHunk_agrees resolvePath missing fs st hunk).bind ?_
    rintro next _ ⟨rfl, new, hactions, hcommits⟩
    refine (ih next).imp ?_
    rintro ⟨actions, text⟩ after ⟨more, hprepared, hmore⟩
    refine ⟨new ++ more, ?_, hcommits.append hmore⟩
    rw [hprepared, hactions, reverse_append, reverse_reverse, append_assoc]

/-- **A patch is validated, then committed.**  Preparation fails exactly when the hunks, one after
another on the files themselves, fail at some hunk; then nothing was written or deleted.  When it
succeeds, the prepared actions in turn, each of them successful, leave exactly the files of the
hunks one after another. -/
theorem apply_patch_validate_then_commit (fs : FileSystem ρ) (hunks : List Hunk) :
    ((∃ err, prepareHunks resolvePath missing display fs hunks = .error err) ↔
      ∃ err, interpretHunks resolvePath missing fs hunks = .error err) ∧
    (∀ err, prepareHunks resolvePath missing display fs hunks = .error err → ∀ faults,
      applyHunks resolvePath missing display faults fs hunks
        = (⟨fs, []⟩, .error ("Patch validation failed; no files were changed.\n".toList ++ err))) ∧
    (∀ actions report,
      prepareHunks resolvePath missing display fs hunks = .ok (actions, report) →
        ∃ after, interpretHunks resolvePath missing fs hunks = .ok after ∧
          applyPreparedActions missing (fun _ => none) ⟨fs, []⟩ actions
            = (⟨after, actions⟩, .ok ()) ∧
          applyHunks resolvePath missing display (fun _ => none) fs hunks
            = (⟨after, actions⟩, .ok report)) := by
  have hagrees := prepareFrom_agrees resolvePath missing display fs hunks Preparation.empty
  rw [view_empty] at hagrees
  refine ⟨hagrees.error_iff, fun err herr faults => ?_, fun actions report hok => ?_⟩
  · rw [applyHunks, herr]
  · have hprepared : prepareFrom resolvePath missing display fs hunks Preparation.empty
        = .ok (actions, report) := hok
    rw [hprepared] at hagrees
    -- a prepared patch is one whose hunks all succeed
    generalize hmeaning : List.foldlM (interpretHunk resolvePath missing) fs hunks = meaning
      at hagrees
    cases hagrees with
    | @ok _ after hcommits =>
      obtain ⟨new, hnew, hcommits⟩ := hcommits
      have hactions : actions = new := hnew
      subst hactions
      have hcommit := hcommits []
      rw [nil_append] at hcommit
      refine ⟨after, hmeaning, hcommit, ?_⟩
      rw [applyHunks, hok]
      simp only [hcommit]

end Patch

end HaskellAgent
