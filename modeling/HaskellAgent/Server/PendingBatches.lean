import HaskellAgent.Lib.FinMap
import HaskellAgent.Lib.Rotation

/-!
# Batches of releases that are tried again

What could not be released stays pending, and each pass tries a bounded batch of it.  The last key
of a batch is remembered, and the next batch starts behind it, whether it is still pending or not.
-/

open List FinMap

namespace HaskellAgent
namespace Server

variable {κ α : Type} [LinearOrder κ]

/-- What is pending, and the last key of the last batch. -/
structure PendingReleases (κ α : Type) [LinearOrder κ] where
  pending : FinMap κ α
  cursor : Option κ

def splitLookup (key : κ) (entries : FinMap κ α) : List (κ × α) × Option α × List (κ × α) :=
  (entries.toList.filter (·.1 < key), entries.lookup key, entries.toList.filter (key < ·.1))

/-- The entries in the order in which they are tried. -/
def orderedEntries (state : PendingReleases κ α) : List (κ × α) :=
  match state.cursor with
  | none => state.pending.toList
  | some previousKey =>
    let (before, atPrevious, after) := splitLookup previousKey state.pending
    let previousEntry := atPrevious.elim [] fun value => [(previousKey, value)]
    after ++ before ++ previousEntry

def selectedEntries (limit : ℕ) (state : PendingReleases κ α) : List (κ × α) :=
  (orderedEntries state).take limit

def takeRotatingPendingBatch (limit : ℕ) (state : PendingReleases κ α) :
    List α × PendingReleases κ α :=
  let selected := selectedEntries limit state
  let nextCursor := match selected.reverse with
    | [] => none
    | (key, _) :: _ => some key
  (selected.map Prod.snd, { state with cursor := nextCursor })

/-- A release that was made is pending no longer, unless another one took its place. -/
def attemptPendingMutationRelease [DecidableEq α] (released : Bool) (key : κ) (mutation : α)
    (pending : FinMap κ α) : FinMap κ α :=
  if released = true then
    pending.alter (fun current => current.bind fun current =>
      if current = mutation then none else some current) key
  else pending

/-- What happens to the pending releases: a batch, an attempt, a request, or a removal. -/
inductive PendingEvent (κ α : Type)
  | batch
  | attempt (released : Bool) (key : κ) (mutation : α)
  | request (key : κ) (mutation : α)
  | remove (key : κ)

section Runs

variable [DecidableEq α] (limit : ℕ)

def pendingStep (state : PendingReleases κ α) : PendingEvent κ α → PendingReleases κ α
  | .batch => (takeRotatingPendingBatch limit state).2
  | .attempt released key mutation =>
    { state with pending := attemptPendingMutationRelease released key mutation state.pending }
  | .request key mutation => { state with pending := state.pending.insert key mutation }
  | .remove key => { state with pending := state.pending.delete key }

/-- The batches of a run. -/
def batches (state : PendingReleases κ α) : List (PendingEvent κ α) → List (List (κ × α))
  | [] => []
  | .batch :: events => selectedEntries limit state :: batches (pendingStep limit state .batch) events
  | event :: events => batches (pendingStep limit state event) events

/-- The key is pending in every state of the run, and only pending keys are requested again. -/
def StaysPending (key : κ) (state : PendingReleases κ α) : List (PendingEvent κ α) → Prop
  | [] => key ∈ state.pending.keys
  | event :: events =>
    key ∈ state.pending.keys ∧
      (∀ requested mutation, event = .request requested mutation →
        requested ∈ state.pending.keys) ∧
      StaysPending key (pendingStep limit state event) events

end Runs

/-! ### The order of the keys -/

variable {state : PendingReleases κ α} {limit : ℕ} {key : κ}

theorem map_fst_orderedEntries (state : PendingReleases κ α) :
    (orderedEntries state).map Prod.fst = rotated state.cursor state.pending.keys := by
  have hfilter : ∀ p : κ → Bool, (state.pending.toList.filter fun entry => p entry.1).map Prod.fst =
      state.pending.keys.filter p := fun p => by
    rw [← map_fst_toList, filter_map]
    rfl
  unfold orderedEntries
  split
  · next hcursor => rw [hcursor, map_fst_toList, rotated]
  · next previousKey hcursor =>
    have hentry : ((state.pending.lookup previousKey).elim [] fun value =>
        [(previousKey, value)]).map Prod.fst =
          if previousKey ∈ state.pending.keys then [previousKey] else [] := by
      have hmem := state.pending.mem_keys previousKey
      cases hlookup : state.pending.lookup previousKey with
      | none => simp_all
      | some value => simp_all
    simp only [splitLookup, map_append, hentry]
    rw [hfilter (previousKey < ·), hfilter (· < previousKey), append_assoc,
      filter_lt_append state.pending.sorted, hcursor, rotated]

theorem map_fst_selectedEntries (limit : ℕ) (state : PendingReleases κ α) :
    (selectedEntries limit state).map Prod.fst =
      (rotated state.cursor state.pending.keys).take limit := by
  rw [selectedEntries, map_take, map_fst_orderedEntries]

theorem mem_orderedEntries {entry : κ × α} (h : entry ∈ orderedEntries state) :
    state.pending.lookup entry.1 = some entry.2 := by
  have hlist : ∀ p : κ × α → Bool, entry ∈ state.pending.toList.filter p →
      state.pending.lookup entry.1 = some entry.2 := fun p h => mem_toList.mp (mem_filter.mp h).1
  unfold orderedEntries at h
  split at h
  · exact mem_toList.mp h
  · next previousKey _ =>
    simp only [splitLookup] at h
    rcases mem_append.mp h with h | h
    · rcases mem_append.mp h with h | h
      · exact hlist _ h
      · exact hlist _ h
    · cases hprevious : state.pending.lookup previousKey with
      | none =>
        rw [hprevious] at h
        cases h
      | some value =>
        rw [hprevious] at h
        rw [mem_singleton.mp h, hprevious]

theorem cursor_takeRotatingPendingBatch (limit : ℕ) (state : PendingReleases κ α) :
    (takeRotatingPendingBatch limit state).2.cursor =
      ((rotated state.cursor state.pending.keys).take limit).getLast? := by
  rw [← map_fst_selectedEntries, getLast?_map, ← head?_reverse]
  unfold takeRotatingPendingBatch
  dsimp only
  cases (selectedEntries limit state).reverse <;> rfl

/-- How many keys are tried before this one. -/
def ahead (key : κ) (state : PendingReleases κ α) : ℕ :=
  (rotated state.cursor state.pending.keys).idxOf key

/-- A batch without the key brings it nearer. -/
theorem ahead_batch (hlimit : 0 < limit) (hkey : key ∈ state.pending.keys)
    (hnot : key ∉ (selectedEntries limit state).map Prod.fst) :
    ahead key state = ahead key (takeRotatingPendingBatch limit state).2 + limit := by
  rw [map_fst_selectedEntries] at hnot
  have hcursor := cursor_takeRotatingPendingBatch limit state
  set order := rotated state.cursor state.pending.keys with horder
  have hin : key ∈ order := (rotated_perm _ _).mem_iff.mpr hkey
  have hsplit : order.take limit ++ order.drop limit = order := take_append_drop _ _
  have hrest : key ∈ order.drop limit := by
    rw [← hsplit] at hin
    exact (mem_append.mp hin).resolve_left hnot
  have hlength : (order.take limit).length = limit := by
    have hpos := length_pos_of_mem hrest
    rw [length_drop] at hpos
    rw [length_take]
    omega
  -- the next order starts where the batch has ended
  obtain ⟨last, hlast⟩ : ∃ last, (order.take limit).getLast? = some last :=
    Option.isSome_iff_exists.mp
      (getLast?_isSome.mpr (ne_nil_of_length_pos (hlimit.trans_eq hlength.symm)))
  have hnext := rotated_of_split state.pending.sorted (horder.symm.trans hsplit.symm) hlast
  rw [ahead, ahead, hcursor, hlast]
  show order.idxOf key = (rotated (some last) state.pending.keys).idxOf key + limit
  have hswap := idxOf_append_swap hnot hrest
  rwa [hsplit, hlength, ← hnext] at hswap

theorem keys_insert_of_mem {m : FinMap κ α} {k : κ} {a : α} (h : k ∈ m.keys) :
    (m.insert k a).keys = m.keys :=
  (m.insert k a).sorted.eq_of_mem_iff m.sorted fun j => by
    rw [FinMap.insert, mem_insertKey, or_iff_right_iff_imp]
    exact fun heq => heq ▸ h

section Changes

variable [DecidableEq α] {event : PendingEvent κ α} {events : List (PendingEvent κ α)}

/-- Between batches keys are removed, and the cursor stays. -/
theorem keys_pendingStep (hevent : event ≠ .batch)
    (hrequest : ∀ requested mutation, event = .request requested mutation →
      requested ∈ state.pending.keys) :
    (pendingStep limit state event).cursor = state.cursor ∧
      ∃ p, (pendingStep limit state event).pending.keys = state.pending.keys.filter p := by
  have hsame : ∃ p, state.pending.keys = state.pending.keys.filter p :=
    ⟨fun _ => true, (filter_true _).symm⟩
  cases event with
  | batch => exact absurd rfl hevent
  | remove removed => exact ⟨rfl, _, rfl⟩
  | request requested mutation =>
    refine ⟨rfl, ?_⟩
    rw [pendingStep, keys_insert_of_mem (hrequest requested mutation rfl)]
    exact hsame
  | attempt released attempted mutation =>
    refine ⟨rfl, ?_⟩
    simp only [pendingStep, attemptPendingMutationRelease]
    split
    · unfold FinMap.alter
      split
      · exact ⟨_, rfl⟩
      · next current hcurrent =>
        obtain ⟨old, hold, -⟩ := Option.bind_eq_some_iff.mp hcurrent
        rw [keys_insert_of_mem ((state.pending.mem_keys _).mpr (by rw [hold]; rfl))]
        exact hsame
    · exact hsame

theorem ahead_pendingStep_le (hevent : event ≠ .batch)
    (hstays : StaysPending limit key state (event :: events)) :
    ahead key (pendingStep limit state event) ≤ ahead key state := by
  obtain ⟨-, hrequest, hnext⟩ := hstays
  obtain ⟨hcursor, p, hkeys⟩ : (pendingStep limit state event).cursor = _ ∧ _ :=
    keys_pendingStep hevent hrequest
  have hkey : key ∈ (pendingStep limit state event).pending.keys := by
    cases events with
    | nil => exact hnext
    | cons next events => exact hnext.1
  rw [ahead, ahead, hcursor, hkeys, rotated_filter]
  exact idxOf_filter_le (mem_filter.mp (hkeys ▸ hkey)).2

/-- A key with few keys ahead is in one of the next batches. -/
theorem selected_of_ahead (hlimit : 0 < limit) {m : ℕ}
    (hstays : StaysPending limit key state events) (hahead : ahead key state < m * limit)
    (hm : m ≤ (batches limit state events).length) :
    ∃ batch ∈ (batches limit state events).take m, key ∈ batch.map Prod.fst := by
  induction events generalizing state m with
  | nil =>
    obtain rfl := Nat.le_zero.mp hm
    omega
  | cons event events ih =>
    by_cases hevent : event = .batch
    · subst hevent
      obtain ⟨m, rfl⟩ : ∃ m', m = m' + 1 := Nat.exists_eq_succ_of_ne_zero (by rintro rfl; omega)
      rw [batches, take_succ_cons]
      by_cases hin : key ∈ (selectedEntries limit state).map Prod.fst
      · exact ⟨_, mem_cons_self, hin⟩
      · have hstep := ahead_batch hlimit hstays.1 hin
        rw [Nat.succ_mul] at hahead
        obtain ⟨batch, hbatch, hkey⟩ := ih hstays.2.2
          (by show ahead key (takeRotatingPendingBatch limit state).2 < _; omega)
          (Nat.le_of_succ_le_succ hm)
        exact ⟨batch, mem_cons_of_mem _ hbatch, hkey⟩
    · have hrest : batches limit state (event :: events) =
          batches limit (pendingStep limit state event) events := by
        cases event with
        | batch => exact absurd rfl hevent
        | attempt | request | remove => rfl
      rw [hrest] at hm ⊢
      exact ih hstays.2.2 ((ahead_pendingStep_le hevent hstays).trans_lt hahead) hm

/-- **A key that stays pending is in one of the next `⌈n / limit⌉` batches**, each of which is of
the greatest size there can be and has no key twice. -/
theorem pending_batches_rotate (hlimit : 0 < limit) :
    (∀ state : PendingReleases κ α,
      (takeRotatingPendingBatch limit state).1 = (selectedEntries limit state).map Prod.snd ∧
      (∀ entry ∈ selectedEntries limit state, state.pending.lookup entry.1 = some entry.2) ∧
      ((selectedEntries limit state).map Prod.fst).Nodup ∧
      (selectedEntries limit state).length = min limit state.pending.keys.length) ∧
    ∀ (state : PendingReleases κ α) (events : List (PendingEvent κ α)) (key : κ),
      StaysPending limit key state events →
      (state.pending.keys.length + limit - 1) / limit ≤ (batches limit state events).length →
      ∃ batch ∈ (batches limit state events).take
        ((state.pending.keys.length + limit - 1) / limit), key ∈ batch.map Prod.fst := by
  refine ⟨fun state => ⟨rfl, fun entry hentry => ?_, ?_, ?_⟩, fun state events key hstays hm => ?_⟩
  · exact mem_orderedEntries (mem_of_mem_take hentry)
  · rw [map_fst_selectedEntries]
    have hnodup : state.pending.keys.Nodup := state.pending.sorted.imp ne_of_lt
    exact ((rotated_perm _ _).nodup_iff.mpr hnodup).sublist (take_sublist _ _)
  · have hlength := congrArg length (map_fst_selectedEntries limit state)
    rwa [length_map, length_take, (rotated_perm _ _).length_eq] at hlength
  · refine selected_of_ahead hlimit hstays ?_ hm
    have hkey : key ∈ state.pending.keys := by
      cases events with
      | nil => exact hstays
      | cons event events => exact hstays.1
    have hlt : ahead key state < state.pending.keys.length := by
      rw [← (rotated_perm state.cursor _).length_eq]
      exact idxOf_lt_length_of_mem ((rotated_perm _ _).mem_iff.mpr hkey)
    have hceil := Nat.lt_div_mul_add (a := state.pending.keys.length + limit - 1) hlimit
    omega

/-- The key of the last batch is pending no longer, and another one is removed between batches. -/
theorem pending_batches_rotate_after_removal :
    ∃ batch ∈ (batches 2 ⟨.ofList [(1, 'a'), (3, 'b'), (4, 'c')], some 2⟩
      [.batch, .remove 3, .batch]).take 2, 1 ∈ batch.map Prod.fst := by
  have hstays : StaysPending (α := Char) 2 1
      ⟨.ofList [(1, 'a'), (3, 'b'), (4, 'c')], some 2⟩ [.batch, .remove 3, .batch] :=
    ⟨by decide, by simp, by decide, by simp, by decide, by simp, by unfold StaysPending; decide⟩
  exact (pending_batches_rotate (by decide)).2 _ _ _ hstays (by decide)

end Changes

end Server
end HaskellAgent
