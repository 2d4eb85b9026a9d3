import HaskellAgent.Dialect.PatchWindows

/-!
# Moved files

An update with a move target writes the target and then deletes the source.  The overlay tells files
apart by their resolved paths; the actions reach the files that these paths lead to.  A resolved path
that was not there is as it was spelled behind what was there, so that two of them may lead to one
file.
-/

open Function

namespace HaskellAgent

def PreparedAction.mapPath {ρ σ : Type} (place : ρ → σ) : PreparedAction ρ → PreparedAction σ
  | .preparedWrite path contents => .preparedWrite (place path) contents
  | .preparedDelete path => .preparedDelete (place path)

section Moves

variable {ρ σ : Type} [DecidableEq ρ] [DecidableEq σ] {resolvePath : Text → Except Text ρ}
  {missing : ρ → Text} {display : Text → Text} {fs : FileSystem ρ}

/-- What a hunk prepares is put before what is there. -/
theorem prepareHunk_actions {st next : Preparation ρ} {hunk : Hunk}
    (h : prepareHunk resolvePath missing fs st hunk = .ok next) :
    ∃ new, next.actions = new ++ st.actions := by
  have hagrees := prepareHunk_agrees resolvePath missing fs st hunk
  rw [h] at hagrees
  generalize interpretHunk resolvePath missing (st.view fs) hunk = meaning at hagrees
  cases hagrees with
  | ok hafter =>
    obtain ⟨-, new, hactions, -⟩ := hafter
    exact ⟨new.reverse, hactions⟩

theorem prepareFrom_actions {hunks : List Hunk} {st : Preparation ρ}
    {actions : List (PreparedAction ρ)} {report : Text}
    (h : prepareFrom resolvePath missing display fs hunks st = .ok (actions, report)) :
    ∃ last, actions = st.actions.reverse ++ last := by
  induction hunks generalizing st with
  | nil =>
    cases h
    exact ⟨[], (List.append_nil _).symm⟩
  | cons hunk rest ih =>
    rw [prepareFrom] at h
    cases hnext : prepareHunk resolvePath missing fs st hunk with
    | error err =>
      rw [hnext] at h
      cases h
    | ok next =>
      rw [hnext] at h
      obtain ⟨last, rfl⟩ := ih h
      obtain ⟨new, hnew⟩ := prepareHunk_actions hnext
      exact ⟨new.reverse ++ last, by rw [hnew, List.reverse_append, List.append_assoc]⟩

/-- The hunks before a hunk are prepared first. -/
theorem prepareFrom_append {before rest : List Hunk} {st : Preparation ρ}
    {prepared : List (PreparedAction ρ) × Text}
    (h : prepareFrom resolvePath missing display fs (before ++ rest) st = .ok prepared) :
    ∃ overlay, before.foldlM (prepareHunk resolvePath missing fs) st = .ok overlay ∧
      prepareFrom resolvePath missing display fs rest overlay = .ok prepared := by
  induction before generalizing st with
  | nil => exact ⟨st, rfl, h⟩
  | cons hunk before ih =>
    rw [List.cons_append, prepareFrom] at h
    rw [List.foldlM_cons]
    cases hnext : prepareHunk resolvePath missing fs st hunk with
    | error err =>
      rw [hnext] at h
      cases h
    | ok next =>
      rw [hnext] at h
      exact ih h

/-- **The actions of an update with a move target**: the target is written with the updated contents,
then the source is deleted. -/
theorem prepareHunks_move {before after : List Hunk} {path dest : Text} {chunks : List UpdateChunk}
    {actions : List (PreparedAction ρ)} {report : Text}
    (h : prepareHunks resolvePath missing display fs
      (before ++ .updateFile path (some dest) chunks :: after) = .ok (actions, report)) :
    ∃ (overlay : Preparation ρ) (source target : ρ) (original contents : Text)
        (last : List (PreparedAction ρ)),
      before.foldlM (prepareHunk resolvePath missing fs) Preparation.empty = .ok overlay ∧
      resolvePath path = .ok source ∧ resolvePath dest = .ok target ∧
      virtualFileContents missing fs overlay.files path source = .ok original ∧
      updatedContents chunks original = .ok contents ∧
      actions = overlay.actions.reverse ++
        [.preparedWrite target contents, .preparedDelete source] ++ last := by
  obtain ⟨overlay, hoverlay, hrest⟩ := prepareFrom_append h
  rw [prepareFrom, prepareHunk] at hrest
  cases hsource : resolvePath path with
  | error err => rw [hsource] at hrest; cases hrest
  | ok source =>
    cases horiginal : virtualFileContents missing fs overlay.files path source with
    | error err =>
      rw [hsource] at hrest
      simp only [bind, Except.bind, horiginal] at hrest
      cases hrest
    | ok original =>
      cases hcontents : updatedContents chunks original with
      | error err =>
        rw [hsource] at hrest
        simp only [bind, Except.bind, horiginal, hcontents, Except.mapError] at hrest
        cases hrest
      | ok contents =>
        cases htarget : resolvePath dest with
        | error err =>
          rw [hsource] at hrest
          simp only [bind, Except.bind, horiginal, hcontents, Except.mapError, htarget] at hrest
          cases hrest
        | ok target =>
          rw [hsource] at hrest
          simp only [bind, Except.bind, horiginal, hcontents, Except.mapError, htarget] at hrest
          obtain ⟨last, hactions⟩ := prepareFrom_actions hrest
          refine ⟨overlay, source, target, original, contents, last, hoverlay, rfl, rfl, horiginal,
            hcontents, ?_⟩
          rw [hactions]
          simp

theorem applyPreparedAction_write {missing : σ → Text} {fault : Option ActionFault}
    {w next : PatchWorld σ} {path : σ} {contents : Text}
    (h : applyPreparedAction missing fault w (.preparedWrite path contents) = (next, .ok ())) :
    next.files = Function.update w.files path (some (.text contents)) := by
  cases fault with
  | none =>
    cases h
    rfl
  | some fault => cases congrArg Prod.snd h

theorem applyPreparedAction_delete {missing : σ → Text} {fault : Option ActionFault}
    {w next : PatchWorld σ} {path : σ}
    (h : applyPreparedAction missing fault w (.preparedDelete path) = (next, .ok ())) :
    next.files = Function.update w.files path none := by
  cases fault with
  | none =>
    simp only [applyPreparedAction] at h
    split at h
    · cases h
      rfl
    · cases congrArg Prod.snd h
  | some fault => cases congrArg Prod.snd h

/-- One successful action after the other. -/
theorem applyPreparedActions_cons {missing : σ → Text} {faults : ℕ → Option ActionFault}
    {w w' : PatchWorld σ} {action : PreparedAction σ} {rest : List (PreparedAction σ)}
    (h : applyPreparedActions missing faults w (action :: rest) = (w', .ok ())) :
    ∃ next, applyPreparedAction missing (faults w.issued.length) w action = (next, .ok ()) ∧
      applyPreparedActions missing faults next rest = (w', .ok ()) := by
  rw [applyPreparedActions] at h
  cases haction : applyPreparedAction missing (faults w.issued.length) w action with
  | mk next result =>
    rw [haction] at h
    cases result with
    | error err => cases congrArg Prod.snd h
    | ok u => exact ⟨next, rfl, h⟩

/-- **A moved file is there exactly if the source is another file.**  A patch whose preparation
succeeds and which updates a file that it moves: once the actions up to those of that hunk have
succeeded, the target has the updated contents, and nothing is at a source with another path, if and
only if the two paths do not lead to one file. -/
theorem moved_file_kept_iff (place : ρ → σ) {before after : List Hunk} {path dest : Text}
    {chunks : List UpdateChunk} {actions : List (PreparedAction ρ)} {report : Text}
    (h : prepareHunks resolvePath missing display fs
      (before ++ .updateFile path (some dest) chunks :: after) = .ok (actions, report)) :
    ∃ (overlay : Preparation ρ) (source target : ρ) (original contents : Text)
        (last : List (PreparedAction ρ)),
      before.foldlM (prepareHunk resolvePath missing fs) Preparation.empty = .ok overlay ∧
      resolvePath path = .ok source ∧ resolvePath dest = .ok target ∧
      virtualFileContents missing fs overlay.files path source = .ok original ∧
      updatedContents chunks original = .ok contents ∧
      actions = overlay.actions.reverse ++
        [.preparedWrite target contents, .preparedDelete source] ++ last ∧
      ∀ (missing' : σ → Text) (faults : ℕ → Option ActionFault) (files : FileSystem σ)
        (w : PatchWorld σ),
        applyPreparedActions missing' faults ⟨files, []⟩ ((overlay.actions.reverse ++
            [PreparedAction.preparedWrite target contents, .preparedDelete source]).map
              (PreparedAction.mapPath place)) = (w, .ok ()) →
          ((w.files (place target) = some (.text contents) ∧
              (source ≠ target → w.files (place source) = none)) ↔
            place source ≠ place target) := by
  obtain ⟨overlay, source, target, original, contents, last, hoverlay, hsource, htarget, horiginal,
    hcontents, hactions⟩ := prepareHunks_move h
  refine ⟨overlay, source, target, original, contents, last, hoverlay, hsource, htarget, horiginal,
    hcontents, hactions, fun missing' faults files w hrun => ?_⟩
  rw [List.map_append, applyPreparedActions_append] at hrun
  cases hfirst : applyPreparedActions missing' faults ⟨files, []⟩
      (overlay.actions.reverse.map (PreparedAction.mapPath place)) with
  | mk mid result =>
    rw [hfirst] at hrun
    cases result with
    | error err => cases congrArg Prod.snd hrun
    | ok u =>
      obtain ⟨written, hwrite, hrest⟩ := applyPreparedActions_cons hrun
      obtain ⟨deleted, hdelete, hend⟩ := applyPreparedActions_cons hrest
      have hw : w = deleted := (congrArg Prod.fst hend).symm
      have hfiles : w.files = Function.update
          (Function.update mid.files (place target) (some (.text contents))) (place source) none := by
        rw [hw, applyPreparedAction_delete hdelete, applyPreparedAction_write hwrite]
      rw [hfiles]
      constructor
      · rintro ⟨hcontents, -⟩ hsame
        rw [← hsame, update_self] at hcontents
        cases hcontents
      · intro hne
        refine ⟨?_, fun _ => update_self _ _ _⟩
        rw [update_of_ne (Ne.symm hne), update_self]

end Moves

/-! ### A file that is moved to another spelling of its path -/

/-- A leading dot is resolved away. -/
def resolveDot (path : Text) : Except Text Text :=
  .ok (if ['.', '/'].isPrefixOf path then path.drop 2 else path)

def exampleFiles : FileSystem Text := fun path =>
  if path = ['a'] then some (.text Patch.exampleFile) else none

def exampleMove (dest : Text) : Hunk := .updateFile ['a'] (some dest) [Patch.exampleChunk]

theorem prepareHunks_exampleMove {dest target : Text} (h : resolveDot dest = .ok target) :
    ∃ report, prepareHunks resolveDot id id exampleFiles [exampleMove dest] =
      .ok ([.preparedWrite target ['a', '\r', '\n', 'c'], .preparedDelete ['a']], report) := by
  have hread : virtualFileContents id exampleFiles Preparation.empty.files ['a'] ['a'] =
      .ok Patch.exampleFile := rfl
  have hsource : resolveDot ['a'] = .ok ['a'] := rfl
  refine ⟨summary id [] [dest] [], ?_⟩
  simp only [prepareHunks, prepareFrom, exampleMove, prepareHunk, hsource, bind, Except.bind, hread,
    Patch.updatedContents_exampleFile, Except.mapError, h]
  rfl

/-- The updated file is written and then deleted. -/
theorem moved_file_lost :
    ∃ report actions w,
      prepareHunks resolveDot id id exampleFiles [exampleMove ['.', '/', 'a']] = .ok (actions, report) ∧
      applyPreparedActions id (fun _ => none) ⟨exampleFiles, []⟩ actions = (w, .ok ()) ∧
      w.files ['a'] = none := by
  obtain ⟨report, hprepared⟩ := @prepareHunks_exampleMove ['.', '/', 'a'] ['a'] rfl
  exact ⟨report, _, _, hprepared, rfl, rfl⟩

theorem moved_file_kept_iff_in_exampleMove :
    ∃ w : PatchWorld Text,
      applyPreparedActions id (fun _ => none) ⟨exampleFiles, []⟩
          [.preparedWrite ['b'] ['a', '\r', '\n', 'c'], .preparedDelete ['a']] = (w, .ok ()) ∧
        w.files ['b'] = some (.text ['a', '\r', '\n', 'c']) ∧ w.files ['a'] = none := by
  obtain ⟨report, hprepared⟩ := @prepareHunks_exampleMove ['b'] ['b'] rfl
  obtain ⟨overlay, source, target, original, contents, last, hoverlay, hsource, htarget, horiginal,
    hcontents, -, hkept⟩ := @moved_file_kept_iff _ _ _ _ _ _ _ _ id [] _ _ _ _ _ _ hprepared
  cases hoverlay
  obtain rfl : ['a'] = source := Except.ok.inj hsource
  obtain rfl : ['b'] = target := Except.ok.inj htarget
  obtain rfl : Patch.exampleFile = original := Except.ok.inj horiginal
  obtain rfl : ['a', '\r', '\n', 'c'] = contents :=
    Except.ok.inj (Patch.updatedContents_exampleFile.symm.trans hcontents)
  obtain ⟨htext, hgone⟩ := (hkept id (fun _ => none) exampleFiles _ rfl).mpr (by decide)
  exact ⟨_, rfl, htext, hgone (by decide)⟩

end HaskellAgent
