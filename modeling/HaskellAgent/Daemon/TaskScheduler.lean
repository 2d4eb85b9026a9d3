import HaskellAgent.Responses.WireItems
import Mathlib.Data.Finset.Insert
import Mathlib.Data.List.Sublists

/-!
# Selecting tasks to run

Tasks are selected in the order of the queue, as many as there is room for.  A task waits while one
of its session runs or was selected before it; tasks without a session do not wait.
-/

open List

namespace HaskellAgent.Daemon

open HaskellAgent.Wire

structure TaskIdentity where
  identityId : Text
  identitySessionId : Option Text
deriving DecidableEq

variable {τ : Type}

abbrev Candidate (τ : Type) := TaskIdentity × τ

def selectFrom : ℕ → Finset Text → List (Candidate τ) → List (Candidate τ) → List (Candidate τ) →
    List (Candidate τ) × List (Candidate τ)
  | _, _, selected, deferred, [] => (selected.reverse, deferred.reverse)
  | 0, _, selected, deferred, remaining => (selected.reverse, deferred.reverse ++ remaining)
  | capacity + 1, sessions, selected, deferred, candidate :: rest =>
    match candidate.1.identitySessionId with
    | some sessionId =>
      if sessionId ∈ sessions then
        selectFrom (capacity + 1) sessions selected (candidate :: deferred) rest
      else
        selectFrom capacity (insert sessionId sessions) (candidate :: selected) deferred rest
    | none => selectFrom capacity sessions (candidate :: selected) deferred rest

def selectRunnableTasks (rawCapacity : ℤ) (activeSessions : Finset Text)
    (candidates : List (Candidate τ)) : List (Candidate τ) × List (Candidate τ) :=
  selectFrom rawCapacity.toNat activeSessions [] [] candidates

/-! ### Without accumulators -/

/-- The sessions that a candidate keeps others from. -/
@[grind =] def withSession (candidate : Candidate τ) (sessions : Finset Text) : Finset Text :=
  match candidate.1.identitySessionId with
  | some sessionId => insert sessionId sessions
  | none => sessions

/-- The session of a candidate is busy. -/
def Blocked (sessions : Finset Text) (candidate : Candidate τ) : Prop :=
  ∃ sessionId ∈ sessions, candidate.1.identitySessionId = some sessionId

instance (sessions : Finset Text) (candidate : Candidate τ) : Decidable (Blocked sessions candidate) :=
  decidable_of_iff (∃ sessionId ∈ sessions, candidate.1.identitySessionId = some sessionId) Iff.rfl

@[grind =] def pick : ℕ → Finset Text → List (Candidate τ) → List (Candidate τ) × List (Candidate τ)
  | _, _, [] => ([], [])
  | 0, _, candidate :: rest => ([], candidate :: rest)
  | capacity + 1, sessions, candidate :: rest =>
    if Blocked sessions candidate then
      ((pick (capacity + 1) sessions rest).1, candidate :: (pick (capacity + 1) sessions rest).2)
    else
      (candidate :: (pick capacity (withSession candidate sessions) rest).1,
        (pick capacity (withSession candidate sessions) rest).2)

theorem selectFrom_eq_pick (capacity : ℕ) (sessions : Finset Text)
    (selected deferred candidates : List (Candidate τ)) :
    selectFrom capacity sessions selected deferred candidates =
      (selected.reverse ++ (pick capacity sessions candidates).1,
        deferred.reverse ++ (pick capacity sessions candidates).2) := by
  fun_induction selectFrom capacity sessions selected deferred candidates with
  | case1 => simp [pick]
  | case2 =>
    cases ‹List (Candidate τ)› <;> simp [pick]
  | case3 capacity sessions selected deferred candidate rest sessionId hsession hmem ih =>
    have hblocked : Blocked sessions candidate := ⟨sessionId, hmem, hsession⟩
    simp [pick, hblocked, ih]
  | case4 capacity sessions selected deferred candidate rest sessionId hsession hmem ih =>
    have hblocked : ¬ Blocked sessions candidate := by
      rintro ⟨s, hs, heq⟩
      rw [hsession, Option.some.injEq] at heq
      exact hmem (heq ▸ hs)
    simp [pick, hblocked, ih, withSession, hsession]
  | case5 capacity sessions selected deferred candidate rest hsession ih =>
    have hblocked : ¬ Blocked sessions candidate := by
      rintro ⟨s, -, heq⟩
      rw [hsession] at heq
      cases heq
    simp [pick, hblocked, ih, withSession, hsession]

theorem selectRunnableTasks_eq_pick (rawCapacity : ℤ) (sessions : Finset Text)
    (candidates : List (Candidate τ)) :
    selectRunnableTasks rawCapacity sessions candidates =
      pick rawCapacity.toNat sessions candidates := by
  rw [selectRunnableTasks, selectFrom_eq_pick]
  rfl

/-! ### What is selected -/

section Pick

variable {capacity : ℕ} {sessions : Finset Text} {candidates : List (Candidate τ)}

/-- **Every candidate is selected or stays.** -/
theorem pick_perm (capacity : ℕ) (sessions : Finset Text) (candidates : List (Candidate τ)) :
    ((pick capacity sessions candidates).1 ++ (pick capacity sessions candidates).2).Perm
      candidates := by
  fun_induction pick capacity sessions candidates with
  | case1 | case2 => exact List.Perm.refl _
  | case3 capacity sessions candidate rest hblocked ih =>
    exact perm_middle.trans (ih.cons candidate)
  | case4 capacity sessions candidate rest hblocked ih => exact ih.cons candidate

theorem pick_remaining_sublist (capacity : ℕ) (sessions : Finset Text)
    (candidates : List (Candidate τ)) :
    (pick capacity sessions candidates).2.Sublist candidates := by
  fun_induction pick capacity sessions candidates with
  | case1 | case2 => exact List.Sublist.refl _
  | case3 capacity sessions candidate rest hblocked ih => exact ih.cons_cons candidate
  | case4 capacity sessions candidate rest hblocked ih => exact ih.cons candidate

theorem pick_selected_sublist (capacity : ℕ) (sessions : Finset Text)
    (candidates : List (Candidate τ)) :
    (pick capacity sessions candidates).1.Sublist candidates := by
  fun_induction pick capacity sessions candidates with
  | case1 => exact List.Sublist.refl _
  | case2 => exact nil_sublist _
  | case3 capacity sessions candidate rest hblocked ih => exact ih.cons candidate
  | case4 capacity sessions candidate rest hblocked ih => exact ih.cons_cons candidate

/-- No more are selected than there is room for. -/
theorem length_pick_le (capacity : ℕ) (sessions : Finset Text) (candidates : List (Candidate τ)) :
    (pick capacity sessions candidates).1.length ≤ capacity := by
  fun_induction pick capacity sessions candidates with
  | case1 | case2 => exact Nat.zero_le _
  | case3 capacity sessions candidate rest hblocked ih => exact ih
  | case4 capacity sessions candidate rest hblocked ih =>
    rw [length_cons]
    omega

theorem subset_withSession (candidate : Candidate τ) (sessions : Finset Text) :
    sessions ⊆ withSession candidate sessions := by
  unfold withSession
  split
  · exact Finset.subset_insert _ _
  · exact Finset.Subset.refl _

theorem blocked_mono {sessions sessions' : Finset Text} {candidate : Candidate τ}
    (h : Blocked sessions candidate) (hsub : sessions ⊆ sessions') : Blocked sessions' candidate := by
  obtain ⟨sessionId, hmem, hsession⟩ := h
  exact ⟨sessionId, hsub hmem, hsession⟩

/-- A candidate keeps the others of its session waiting. -/
theorem blocked_withSession {candidate other : Candidate τ} {sessionId : Text}
    (h : candidate.1.identitySessionId = some sessionId)
    (hother : other.1.identitySessionId = some sessionId) (sessions : Finset Text) :
    Blocked (withSession candidate sessions) other := by
  refine ⟨sessionId, ?_, hother⟩
  simp [withSession, h]

theorem not_blocked_of_selected {candidate : Candidate τ}
    (h : candidate ∈ (pick capacity sessions candidates).1) : ¬ Blocked sessions candidate := by
  fun_induction pick capacity sessions candidates with
  | case1 | case2 => simp at h
  | case3 capacity sessions first rest hblocked ih => exact ih h
  | case4 capacity sessions first rest hblocked ih =>
    rcases mem_cons.mp h with rfl | h
    · exact hblocked
    · exact fun hb => ih h (blocked_mono hb (subset_withSession _ _))

/-- Those that are selected have different sessions. -/
theorem pairwise_selected (capacity : ℕ) (sessions : Finset Text)
    (candidates : List (Candidate τ)) :
    (pick capacity sessions candidates).1.Pairwise fun a b =>
      ∀ sessionId, a.1.identitySessionId = some sessionId →
        b.1.identitySessionId ≠ some sessionId := by
  fun_induction pick capacity sessions candidates with
  | case1 | case2 => exact List.Pairwise.nil
  | case3 capacity sessions candidate rest hblocked ih => exact ih
  | case4 capacity sessions candidate rest hblocked ih =>
    refine pairwise_cons.mpr ⟨fun other hother sessionId h hsame => ?_, ih⟩
    exact not_blocked_of_selected hother (blocked_withSession h hsame _)

/-- **No candidate overtakes an earlier one of its session.** -/
theorem not_same_session_before {before after : List (Candidate τ)} {candidate earlier : Candidate τ}
    (hsplit : candidates = before ++ candidate :: after) (hnodup : candidates.Nodup)
    (hselected : candidate ∈ (pick capacity sessions candidates).1) (hearlier : earlier ∈ before)
    {sessionId : Text} (h : candidate.1.identitySessionId = some sessionId) :
    earlier.1.identitySessionId ≠ some sessionId := by
  intro hsame
  fun_induction pick capacity sessions candidates generalizing before with
  | case1 | case2 => simp at hselected
  | case3 capacity sessions first rest hblocked ih =>
    cases before with
    | nil => simp at hearlier
    | cons b before =>
      obtain ⟨rfl, hrest⟩ := List.cons.inj hsplit
      rcases mem_cons.mp hearlier with rfl | hmem
      · -- the session is busy, and keeps the candidate waiting too
        obtain ⟨s, hs, heq⟩ := hblocked
        rw [hsame, Option.some.injEq] at heq
        exact not_blocked_of_selected hselected ⟨s, hs, heq ▸ h⟩
      · exact ih hrest (nodup_cons.mp hnodup).2 hselected hmem
  | case4 capacity sessions first rest hblocked ih =>
    cases before with
    | nil => simp at hearlier
    | cons b before =>
      obtain ⟨rfl, hrest⟩ := List.cons.inj hsplit
      have hne : candidate ≠ first := by
        rintro rfl
        refine (nodup_cons.mp hnodup).1 ?_
        rw [hrest]
        simp
      have hselected' := (mem_cons.mp hselected).resolve_left hne
      rcases mem_cons.mp hearlier with rfl | hmem
      · exact not_blocked_of_selected hselected' (blocked_withSession hsame h _)
      · exact ih hrest (nodup_cons.mp hnodup).2 hselected' hmem

/-- The sessions that are busy after the pass. -/
def busyAfter (sessions : Finset Text) (selected : List (Candidate τ)) : Finset Text :=
  selected.foldl (fun busy candidate => withSession candidate busy) sessions

theorem mem_busyAfter {sessions : Finset Text} {selected : List (Candidate τ)} {sessionId : Text} :
    sessionId ∈ busyAfter sessions selected ↔ sessionId ∈ sessions ∨
      ∃ candidate ∈ selected, candidate.1.identitySessionId = some sessionId := by
  induction selected generalizing sessions with
  | nil => simp [busyAfter]
  | cons candidate selected ih =>
    have hstep : sessionId ∈ withSession candidate sessions ↔
        candidate.1.identitySessionId = some sessionId ∨ sessionId ∈ sessions := by
      unfold withSession
      split
      · next busy hbusy => simp [hbusy, eq_comm]
      · next hnone => simp [hnone]
    rw [busyAfter, foldl_cons, ← busyAfter, ih, hstep, exists_mem_cons_iff, or_assoc,
      or_left_comm]

theorem subset_busyAfter (sessions : Finset Text) (selected : List (Candidate τ)) :
    sessions ⊆ busyAfter sessions selected := by
  induction selected generalizing sessions with
  | nil => exact Finset.Subset.refl _
  | cons candidate selected ih => exact (subset_withSession candidate sessions).trans (ih _)

/-- A candidate stays because there is no room, or because its session is busy. -/
theorem full_or_blocked (capacity : ℕ) (sessions : Finset Text)
    (candidates : List (Candidate τ)) :
    (pick capacity sessions candidates).1.length = capacity ∨
      ∀ candidate ∈ (pick capacity sessions candidates).2,
        Blocked (busyAfter sessions (pick capacity sessions candidates).1) candidate := by
  fun_induction pick capacity sessions candidates with
  | case1 => exact .inr fun candidate h => by simp at h
  | case2 => exact .inl rfl
  | case3 capacity sessions first rest hblocked ih =>
    rcases ih with hfull | hall
    · exact .inl hfull
    · refine .inr fun candidate hmem => ?_
      rcases mem_cons.mp hmem with rfl | hmem
      · exact blocked_mono hblocked (subset_busyAfter _ _)
      · exact hall candidate hmem
  | case4 capacity sessions first rest hblocked ih =>
    rcases ih with hfull | hall
    · exact .inl (by rw [length_cons, hfull])
    · exact .inr hall

/-- Nothing is selected where every candidate waits. -/
theorem pick_eq_nil (h : capacity = 0 ∨ ∀ candidate ∈ candidates, Blocked sessions candidate) :
    pick capacity sessions candidates = ([], candidates) := by
  fun_induction pick capacity sessions candidates with
  | case1 | case2 => rfl
  | case3 capacity sessions first rest hblocked ih =>
    rw [ih (h.imp id fun hall candidate hmem => hall candidate (mem_cons_of_mem _ hmem))]
  | case4 capacity sessions first rest hblocked ih =>
    rcases h with hzero | hall
    · omega
    · exact absurd (hall first mem_cons_self) hblocked

end Pick

end HaskellAgent.Daemon
