import HaskellAgent.Lib.Machine
import HaskellAgent.Loop.InputQueue

/-!
# The accounts of the steering queue

The queue counts the entries and bytes it retains, refuses guidance over the limits and defers
completion notices that do not fit.  Nine operations update the entries, the deferred notices, both
counters and the reserved prefix; here they are followed over every sequence of operations.
-/

open List Option Machine

namespace HaskellAgent

variable {ι : Type*} {state next : InputQueueState ι} {leased : List (InputEntry ι)}

/-! ### Exact accounts -/

/-- The byte total of entries. -/
def entryByteSum (entries : List (InputEntry ι)) : ℕ := (entries.map (·.entryBytes)).sum

@[simp] theorem entryByteSum_nil : entryByteSum ([] : List (InputEntry ι)) = 0 := rfl

@[simp] theorem entryByteSum_cons (entry : InputEntry ι) (entries : List (InputEntry ι)) :
    entryByteSum (entry :: entries) = entry.entryBytes + entryByteSum entries := by
  simp [entryByteSum]

@[simp] theorem entryByteSum_append (entries more : List (InputEntry ι)) :
    entryByteSum (entries ++ more) = entryByteSum entries + entryByteSum more := by
  simp [entryByteSum]

theorem entryByteSum_le_of_sublist {kept entries : List (InputEntry ι)}
    (h : kept.Sublist entries) : entryByteSum kept ≤ entryByteSum entries := by
  induction h with
  | slnil => exact le_refl _
  | cons entry _ ih =>
    rw [entryByteSum_cons]
    omega
  | cons_cons entry _ ih =>
    rw [entryByteSum_cons, entryByteSum_cons]
    omega

/-- The saturating sum is the sum, or both reach the largest integer. -/
theorem saturatingAddInt_cases (left : ℤ) {right : ℤ} (hright : 0 ≤ right) :
    saturatingAddInt left right = left + right ∧ (right = 0 ∨ left + right ≤ maxBound) ∨
      saturatingAddInt left right = maxBound ∧ (maxBound : ℤ) ≤ left + right := by
  unfold saturatingAddInt
  split
  · left
    omega
  · split
    · right
      exact ⟨rfl, by omega⟩
    · left
      exact ⟨rfl, by omega⟩

theorem entryBytesTotal_cases (entries : List (InputEntry ι)) :
    entryBytesTotal entries = entryByteSum entries ∨
      entryBytesTotal entries = maxBound ∧ (maxBound : ℤ) ≤ entryByteSum entries := by
  induction entries with
  | nil => exact .inl rfl
  -- once saturated, the total stays saturated, since sizes are not negative
  | cons entry entries ih =>
    have hcons : entryBytesTotal (entry :: entries)
        = saturatingAddInt entry.entryBytes (entryBytesTotal entries) := rfl
    have hnonneg : 0 ≤ entryBytesTotal entries := by omega
    have hsum := saturatingAddInt_cases entry.entryBytes hnonneg
    have hpos : 0 < maxBound := by decide
    rw [hcons, entryByteSum_cons]
    push_cast
    omega

/-- Totals below the largest integer are exact. -/
theorem entryBytesTotal_eq {entries : List (InputEntry ι)}
    (h : (entryByteSum entries : ℤ) < maxBound) :
    entryBytesTotal entries = entryByteSum entries := by
  have := entryBytesTotal_cases entries
  omega

/-- The counters agree with the entries of the queue and of a leased batch, and are within the
limits. -/
structure InputQueueState.Accounts (state : InputQueueState ι) (leased : List (InputEntry ι)) :
    Prop where
  count : state.queueRetainedCount = state.queueEntries.length + leased.length
  bytes : state.queueRetainedBytes = entryByteSum state.queueEntries + entryByteSum leased
  count_le : state.queueRetainedCount ≤ state.queueCountLimit
  bytes_le : state.queueRetainedBytes ≤ state.queueByteLimit
  /-- The limits are far from saturation. -/
  limit : state.queueByteLimit < maxBound

/-- The remaining budget admits the entries. -/
def InputQueueState.Fits (state : InputQueueState ι) (entries : List (InputEntry ι)) : Prop :=
  state.queueRetainedCount + entries.length ≤ state.queueCountLimit ∧
    state.queueRetainedBytes + entryByteSum entries ≤ state.queueByteLimit

instance (entries : List (InputEntry ι)) : Decidable (state.Fits entries) :=
  inferInstanceAs (Decidable (_ ∧ _))

/-- The queue with new entries at its end, accounted for. -/
def admitEntries (entries : List (InputEntry ι)) (state : InputQueueState ι) :
    InputQueueState ι :=
  { state with
    queueEntries := state.queueEntries ++ entries
    queueRetainedCount := state.queueRetainedCount + entries.length
    queueRetainedBytes := state.queueRetainedBytes + entryByteSum entries }

section

variable (h : state.Accounts leased)
include h

/-- **Admission tests the remaining budget.**  The saturation of the byte counts cannot be seen
through a limit below the largest integer. -/
theorem appendEntries_eq (entries : List (InputEntry ι)) :
    appendEntries entries state
      = if state.Fits entries then some (admitEntries entries state) else none := by
  have htotal := entryBytesTotal_cases entries
  have hsum := saturatingAddInt_cases state.queueRetainedBytes
    (show 0 ≤ entryBytesTotal entries by omega)
  have hbytes := h.bytes
  have hlimit := h.limit
  by_cases hfits : state.Fits entries
  -- what fits is below the limit, so its total is exact
  · rw [if_pos hfits]
    obtain ⟨hcount, hroom⟩ := hfits
    have hexact : saturatingAddInt state.queueRetainedBytes (entryBytesTotal entries)
        = state.queueRetainedBytes + entryByteSum entries := by omega
    simp only [appendEntries, hexact]
    rw [if_neg (by omega)]
    rfl
  -- a saturated total is above the limit too
  · rw [if_neg hfits]
    have hover : state.queueCountLimit < state.queueRetainedCount + entries.length ∨
        state.queueByteLimit < state.queueRetainedBytes + entryByteSum entries := by
      simp only [InputQueueState.Fits, not_and_or] at hfits
      omega
    simp only [appendEntries]
    exact if_pos (by omega)

theorem InputQueueState.Accounts.of_admission
    {entries : List (InputEntry ι)} (hfits : state.Fits entries) :
    (admitEntries entries state).Accounts leased where
  count := by
    have := h.count
    simp only [admitEntries, length_append]
    omega
  bytes := by
    have := h.bytes
    simp only [admitEntries, entryByteSum_append]
    omega
  count_le := hfits.1
  bytes_le := hfits.2
  limit := h.limit

/-- Entries of the same sizes have the same accounts. -/
theorem InputQueueState.Accounts.congr (hcount : next.queueRetainedCount = state.queueRetainedCount)
    (hbytes : next.queueRetainedBytes = state.queueRetainedBytes)
    (hlimits : next.queueCountLimit = state.queueCountLimit ∧
      next.queueByteLimit = state.queueByteLimit)
    (hsizes : next.queueEntries.map (·.entryBytes) = state.queueEntries.map (·.entryBytes)) :
    next.Accounts leased where
  count := by
    have hlen := congrArg List.length hsizes
    rw [length_map, length_map] at hlen
    rw [hcount, h.count, hlen]
  bytes := by
    have hsum : entryByteSum next.queueEntries = entryByteSum state.queueEntries :=
      congrArg List.sum hsizes
    rw [hbytes, h.bytes, hsum]
  count_le := by rw [hcount, hlimits.1]; exact h.count_le
  bytes_le := by rw [hbytes, hlimits.2]; exact h.bytes_le
  limit := by rw [hlimits.2]; exact h.limit

/-- The accounts of a queue that kept some of its entries and counted them again. -/
theorem InputQueueState.Accounts.keep (hkept : next.queueEntries.Sublist state.queueEntries)
    (hcount : next.queueRetainedCount = next.queueEntries.length + leased.length)
    (hbytes : next.queueRetainedBytes = entryByteSum next.queueEntries + entryByteSum leased)
    (hlimits : next.queueCountLimit = state.queueCountLimit ∧
      next.queueByteLimit = state.queueByteLimit) : next.Accounts leased where
  count := hcount
  bytes := hbytes
  count_le := by
    have hlen := hkept.length_le
    have hold := h.count
    have hle := h.count_le
    rw [hlimits.1]
    omega
  bytes_le := by
    have hsum := entryByteSum_le_of_sublist hkept
    have hold := h.bytes
    have hle := h.bytes_le
    rw [hlimits.2]
    omega
  limit := by rw [hlimits.2]; exact h.limit

/-- The total of part of an accounted queue is exact. -/
theorem InputQueueState.Accounts.total_eq
    {entries : List (InputEntry ι)} (hsub : entries.Sublist state.queueEntries) :
    entryBytesTotal entries = entryByteSum entries := by
  have hsum := entryByteSum_le_of_sublist hsub
  have hbytes := h.bytes
  have hle := h.bytes_le
  have hlimit := h.limit
  exact entryBytesTotal_eq (by omega)

end

/-! ### The invariant -/

/-- What the queue keeps at every moment of an operation. -/
structure SteeringQueueInvariant.Core (state : InputQueueState ι) : Prop where
  countLimit : state.queueCountLimit = steeringInputCountLimit
  byteLimit : state.queueByteLimit = steeringInputByteLimit
  accounts : state.Accounts []
  reserved : state.queueReservedCount ≤ state.queueEntries.length
  /-- No task has two notices. -/
  keys : ((state.queueEntries ++ state.queueDeferredCompletions).filterMap
    (·.entryBackgroundKey)).Nodup
  deferredBytes : ∀ entry ∈ state.queueDeferredCompletions,
    (entry.entryBytes : ℤ) ≤ steeringInputByteLimit

/-- What the queue keeps between operations: a notice is deferred only while the first deferred one
does not fit. -/
structure SteeringQueueInvariant (state : InputQueueState ι) : Prop
    extends SteeringQueueInvariant.Core state where
  head : ∀ entry ∈ state.queueDeferredCompletions.head?, ¬ state.Fits [entry]

namespace SteeringQueueInvariant

theorem initial : SteeringQueueInvariant (emptySteeringState : InputQueueState ι) where
  countLimit := rfl
  byteLimit := rfl
  accounts := {
    count := rfl
    bytes := rfl
    count_le := show (0 : ℤ) ≤ steeringInputCountLimit by decide
    bytes_le := show (0 : ℤ) ≤ steeringInputByteLimit by decide
    limit := show steeringInputByteLimit < (maxBound : ℤ) by decide }
  reserved := le_refl _
  keys := nodup_nil
  deferredBytes := by intro entry h; cases h
  head := by intro entry h; cases h

/-- The budget an entry takes does not depend on its wake mark. -/
theorem fits_wake {entry : InputEntry ι} :
    state.Fits [{ entry with entryWake := true }] ↔ state.Fits [entry] := by
  simp [InputQueueState.Fits]

/-- The promotion loop keeps the invariant and stops at a notice that does not fit. -/
theorem promoteLoop_invariant (deferred : List (InputEntry ι)) (state : InputQueueState ι)
    (h : Core { state with queueDeferredCompletions := deferred }) :
    SteeringQueueInvariant (promoteLoop deferred state) := by
  -- the deferred notices of the state are those the loop still holds, so they are the index
  induction deferred generalizing state with
  | nil =>
    refine ⟨h, ?_⟩
    intro entry hmem
    cases hmem
  | cons entry remaining ih =>
    have haccounts : state.Accounts [] :=
      h.accounts.congr rfl rfl ⟨rfl, rfl⟩ rfl
    rw [promoteLoop, appendEntries_eq haccounts]
    by_cases hfits : state.Fits [{ entry with entryWake := true }]
    · rw [if_pos hfits]
      refine ih _ ?_
      exact {
        countLimit := h.countLimit
        byteLimit := h.byteLimit
        accounts := (haccounts.of_admission hfits).congr rfl rfl ⟨rfl, rfl⟩ rfl
        reserved := by
          have := h.reserved
          simp only [admitEntries, length_append] at this ⊢
          omega
        keys := by
          have hkeys := h.keys
          simpa [admitEntries, filterMap_append, filterMap_cons] using hkeys
        deferredBytes := fun e he => h.deferredBytes e (mem_cons_of_mem _ he) }
    · rw [if_neg hfits]
      refine ⟨h, ?_⟩
      intro e he
      rw [List.head?_cons, mem_some_iff] at he
      subst he
      exact fun hf => hfits (fits_wake.mpr hf)

/-- **Promotion establishes that the first deferred notice does not fit.** -/
theorem promote (h : Core state) : SteeringQueueInvariant (promoteDeferredCompletions state) :=
  promoteLoop_invariant _ _ h

/-- A deferred notice waits behind entries: an empty queue would have admitted it. -/
theorem entries_ne_nil (h : SteeringQueueInvariant state)
    (hdef : state.queueDeferredCompletions ≠ []) : state.queueEntries ≠ [] := by
  obtain ⟨entry, rest, hcons⟩ := exists_cons_of_ne_nil hdef
  -- an empty queue has its whole budget, and no deferred notice is larger than that
  intro hnil
  refine h.head entry (by rw [hcons]; rfl) ?_
  have hroom := h.deferredBytes entry (by rw [hcons]; exact mem_cons_self)
  have hcount := h.accounts.count
  have hbytes := h.accounts.bytes
  rw [hnil] at hcount hbytes
  simp only [length_nil, entryByteSum_nil] at hcount hbytes
  simp only [InputQueueState.Fits, h.countLimit, h.byteLimit, hcount, hbytes, entryByteSum_cons,
    entryByteSum_nil, length_singleton, steeringInputCountLimit]
  exact ⟨by decide, by simpa using hroom⟩

/-! ### The operations keep it -/

section

variable (h : SteeringQueueInvariant state)
include h

/-- Operations that touch only wake marks, the reservation or the closed mark keep the
invariant. -/
theorem of_marks (hcount : next.queueRetainedCount = state.queueRetainedCount)
    (hbytes : next.queueRetainedBytes = state.queueRetainedBytes)
    (hlimits : next.queueCountLimit = state.queueCountLimit ∧
      next.queueByteLimit = state.queueByteLimit)
    (hentries : next.queueEntries.map clearWake = state.queueEntries.map clearWake)
    (hdeferred : next.queueDeferredCompletions.map clearWake
      = state.queueDeferredCompletions.map clearWake)
    (hreserved : next.queueReservedCount ≤ next.queueEntries.length) :
    SteeringQueueInvariant next := by
  -- keys and sizes can be read off the entries without their wake marks
  have hkeys (es : List (InputEntry ι)) : es.filterMap (·.entryBackgroundKey)
      = (es.map clearWake).filterMap (·.entryBackgroundKey) := by
    rw [filterMap_map]
    rfl
  have hsizes (es : List (InputEntry ι)) : es.map (·.entryBytes)
      = (es.map clearWake).map (·.entryBytes) := by
    rw [List.map_map]
    rfl
  refine ⟨⟨hlimits.1.trans h.countLimit, hlimits.2.trans h.byteLimit, ?_, hreserved, ?_, ?_⟩, ?_⟩
  · exact h.accounts.congr hcount hbytes hlimits (by rw [hsizes, hentries, ← hsizes])
  · rw [hkeys, map_append, hentries, hdeferred, ← map_append, ← hkeys]
    exact h.keys
  · intro entry hmem
    have hmap := List.mem_map_of_mem (f := clearWake) hmem
    rw [hdeferred] at hmap
    obtain ⟨old, hold, heq⟩ := List.mem_map.mp hmap
    have hsame : entry.entryBytes = old.entryBytes := (congrArg (·.entryBytes) heq).symm
    rw [hsame]
    exact h.deferredBytes old hold
  · intro entry hmem hfits
    have hhead : clearWake entry ∈ (state.queueDeferredCompletions.map clearWake).head? := by
      rw [← hdeferred, List.head?_map]
      exact Option.mem_map_of_mem _ hmem
    rw [List.head?_map] at hhead
    obtain ⟨old, hold, heq⟩ := map_eq_some_iff.mp hhead
    refine h.head old hold ?_
    have hsame : old.entryBytes = entry.entryBytes := congrArg (·.entryBytes) heq
    simpa [InputQueueState.Fits, hcount, hbytes, hlimits.1, hlimits.2, hsame] using hfits

theorem clear :
    SteeringQueueInvariant (clearSteeringInputs state) where
  countLimit := h.countLimit
  byteLimit := h.byteLimit
  accounts := {
    count := rfl
    bytes := rfl
    count_le := by
      simp only [clearSteeringInputs, clearPendingState, h.countLimit]
      decide
    bytes_le := by
      simp only [clearSteeringInputs, clearPendingState, h.byteLimit]
      decide
    limit := h.accounts.limit }
  reserved := le_refl _
  keys := nodup_nil
  deferredBytes := by intro entry hmem; cases hmem
  head := by intro entry hmem; cases hmem

theorem reserve :
    SteeringQueueInvariant (reserveInputQueueState state) :=
  h.of_marks rfl rfl ⟨rfl, rfl⟩ rfl rfl (le_refl _)

theorem close :
    SteeringQueueInvariant (closeSteeringInputs state).2 := by
  unfold closeSteeringInputs
  split
  · exact h.of_marks rfl rfl ⟨rfl, rfl⟩ rfl rfl h.reserved
  · exact h.reserve

theorem await (hst : awaitSteeringInput state = some next) :
    SteeringQueueInvariant next := by
  unfold awaitSteeringInput at hst
  split at hst
  · cases hst
    refine h.of_marks rfl rfl ⟨rfl, rfl⟩ ?_ ?_ ?_
    · simp [clearWake]
    · simp [clearWake]
    · simpa using h.reserved
  · cases hst

theorem suppress :
    SteeringQueueInvariant (suppressUserSteeringWake state) := by
  refine h.of_marks rfl rfl ⟨rfl, rfl⟩ ?_ rfl ?_
  · simp only [suppressUserSteeringWake, List.map_map]
    refine map_congr_left fun entry _ => ?_
    simp only [Function.comp_apply]
    split <;> rfl
  · simpa [suppressUserSteeringWake] using h.reserved

/-- Guidance takes budget, so a deferred notice that did not fit still does not. -/
theorem enqueueInputs (bytes : ι → ℕ) (inputs : List ι) :
    SteeringQueueInvariant (enqueueSteeringInputs bytes state inputs).2 := by
  unfold enqueueSteeringInputs
  simp only [appendEntries_eq h.accounts]
  split
  · exact h
  · split
    · exact h
    · next admitted hadmitted =>
      split at hadmitted
      · next hfits =>
        cases hadmitted
        refine ⟨⟨h.countLimit, h.byteLimit, h.accounts.of_admission hfits, ?_, ?_,
          h.deferredBytes⟩, ?_⟩
        · have := h.reserved
          simp only [admitEntries, length_append]
          omega
        -- guidance is no notice, so it brings no key
        · have hnokey : (inputs.map fun input : ι =>
              ({ entryInput := input, entryBytes := bytes input, entryNoticeKind := none
                 entryBackgroundKey := none, entryWake := true } : InputEntry ι)).filterMap
              (·.entryBackgroundKey) = [] := by
            simp [filterMap_map]
          have hkeys := h.keys
          simp only [admitEntries, filterMap_append, hnokey, List.append_nil] at hkeys ⊢
          exact hkeys
        · intro entry hmem hroom
          refine h.head entry hmem ?_
          simp only [InputQueueState.Fits, admitEntries] at hroom ⊢
          omega
      · cases hadmitted

/-- A notice joins the deferred ones, under a key that no notice has. -/
theorem enqueueCompletion (bytes : ι → ℕ) (epoch : Option ℕ)
    (key : Text) (input : ι) :
    SteeringQueueInvariant (enqueueBackgroundCompletion bytes epoch key input state).2 := by
  unfold enqueueBackgroundCompletion
  split
  · exact h
  · next hnew =>
    split
    · exact h
    · next hroom =>
      refine promote ⟨h.countLimit, h.byteLimit, h.accounts.congr rfl rfl ⟨rfl, rfl⟩ rfl,
        h.reserved, ?_, ?_⟩
      · have hkeys := h.keys
        simp only [Bool.or_eq_true, not_or, Bool.not_eq_true, List.any_eq_false, beq_iff_eq]
          at hnew
        rw [← append_assoc, filterMap_append, nodup_append]
        refine ⟨hkeys, by simp, ?_⟩
        intro a ha b hb hab
        obtain ⟨entry, hentry, hkey⟩ := mem_filterMap.mp ha
        have hb' : b = key := by simpa using hb
        exact hnew.2 entry hentry (by rw [hkey, hab, hb'])
      · intro entry hmem
        rcases mem_append.mp hmem with hold | hmine
        · exact h.deferredBytes entry hold
        · rw [mem_singleton] at hmine
          rw [hmine, ← h.byteLimit]
          exact Int.not_lt.mp hroom

/-- Dismissal recounts what it keeps. -/
theorem dismiss (key : Text) :
    SteeringQueueInvariant (dismissBackgroundCompletion key state) := by
  -- reserved entries stay, for the turn that reads them; only the rest is filtered
  have hsplit := take_append_drop state.queueReservedCount state.queueEntries
  have hsub : (state.queueEntries.take state.queueReservedCount ++
      (state.queueEntries.drop state.queueReservedCount).filter
        (fun entry => entry.entryBackgroundKey != some key)).Sublist state.queueEntries := by
    conv_rhs => rw [← hsplit]
    exact (List.Sublist.refl _).append filter_sublist
  refine promote ⟨h.countLimit, h.byteLimit, ?_, ?_, ?_, ?_⟩
  · refine h.accounts.keep hsub ?_ ?_ ⟨rfl, rfl⟩
    · have hcount := h.accounts.count
      simp only [withdrawCompletion, length_nil] at hcount ⊢
      omega
    -- the recount may saturate, but not for entries the queue had accounted for
    · simpa [withdrawCompletion] using h.accounts.total_eq hsub
  · have := h.reserved
    simp only [withdrawCompletion, length_append, length_take]
    omega
  · refine h.keys.sublist (List.Sublist.filterMap _ ?_)
    exact hsub.append filter_sublist
  · exact fun entry hmem => h.deferredBytes entry (mem_of_mem_filter hmem)

/-- A commit gives back exactly the budget of what it removes. -/
theorem commit (count : ℤ) :
    SteeringQueueInvariant (commitSteeringInputs count state) := by
  unfold commitSteeringInputs
  generalize (max 0 count).toNat = n
  have hdrop : (state.queueEntries.drop n).Sublist state.queueEntries := drop_sublist n _
  have hsum : entryByteSum (state.queueEntries.take n) + entryByteSum (state.queueEntries.drop n)
      = entryByteSum state.queueEntries := by
    rw [← entryByteSum_append, take_append_drop]
  refine promote ⟨h.countLimit, h.byteLimit, ?_, ?_, ?_, h.deferredBytes⟩
  · refine h.accounts.keep hdrop ?_ ?_ ⟨rfl, rfl⟩
    · have hcount := h.accounts.count
      simp only [dropAcknowledged, length_take, length_drop, length_nil] at hcount ⊢
      omega
    · have hbytes := h.accounts.bytes
      simp only [dropAcknowledged, h.accounts.total_eq (take_sublist n _), entryByteSum_nil]
        at hbytes ⊢
      omega
  · have := h.reserved
    simp only [dropAcknowledged, length_drop]
    omega
  · exact h.keys.sublist (List.Sublist.filterMap _ (hdrop.append (List.Sublist.refl _)))

end

end SteeringQueueInvariant

/-! ### Every reachable queue -/

/-- The operations of a steering queue. -/
inductive SteeringOp
  | enqueueSteeringInputs (inputs : List TurnInput)
  | enqueueBackgroundCompletion (epoch : Option ℕ) (key : Text) (input : TurnInput)
  | reserveSteeringInputs
  | readSteeringTurn
  | closeSteeringInputs
  | awaitSteeringInput
  | suppressUserSteeringWake
  | dismissBackgroundCompletion (key : Text)
  | commitSteeringInputs (count : ℤ)
  | clearSteeringInputs
  deriving DecidableEq, Repr

/-- The queue after an operation; `none` where the operation blocks. -/
def steeringStep (state : InputQueueState TurnInput) :
    SteeringOp → Option (InputQueueState TurnInput)
  | .enqueueSteeringInputs inputs =>
      some (enqueueSteeringInputs logicalTurnInputBytes state inputs).2
  | .enqueueBackgroundCompletion epoch key input =>
      some (enqueueBackgroundCompletion logicalTurnInputBytes epoch key input state).2
  | .reserveSteeringInputs => some (reserveSteeringInputs state).2
  | .readSteeringTurn => some (readSteeringTurn state).2
  | .closeSteeringInputs => some (closeSteeringInputs state).2
  | .awaitSteeringInput => awaitSteeringInput state
  | .suppressUserSteeringWake => some (suppressUserSteeringWake state)
  | .dismissBackgroundCompletion key => some (dismissBackgroundCompletion key state)
  | .commitSteeringInputs count => some (commitSteeringInputs count state)
  | .clearSteeringInputs => some (clearSteeringInputs state)

theorem SteeringQueueInvariant.step {state next : InputQueueState TurnInput}
    (h : SteeringQueueInvariant state) {op : SteeringOp} (hst : steeringStep state op = some next) :
    SteeringQueueInvariant next := by
  cases op with
  | awaitSteeringInput => exact h.await hst
  | enqueueSteeringInputs inputs => exact some.inj hst ▸ h.enqueueInputs _ inputs
  | enqueueBackgroundCompletion epoch key input =>
    exact some.inj hst ▸ h.enqueueCompletion _ epoch key input
  | reserveSteeringInputs | readSteeringTurn => exact some.inj hst ▸ h.reserve
  | closeSteeringInputs => exact some.inj hst ▸ h.close
  | suppressUserSteeringWake => exact some.inj hst ▸ h.suppress
  | dismissBackgroundCompletion key => exact some.inj hst ▸ h.dismiss key
  | commitSteeringInputs count => exact some.inj hst ▸ h.commit count
  | clearSteeringInputs => exact some.inj hst ▸ h.clear

/-- **The invariant of every steering queue.**  The counters are exact and within the limits, the
reservation covers entries that are there, no task has two notices, and notices are deferred only
behind entries: the first deferred one does not fit, so the queue is not empty, and
`closeSteeringInputs` closes no queue that owes a notice. -/
theorem steering_queue_invariant {state : InputQueueState TurnInput}
    (h : Reachable steeringStep emptySteeringState state) :
    state.queueRetainedCount = state.queueEntries.length ∧
      state.queueRetainedBytes = entryByteSum state.queueEntries ∧
      state.queueRetainedCount ≤ steeringInputCountLimit ∧
      state.queueRetainedBytes ≤ steeringInputByteLimit ∧
      state.queueReservedCount ≤ state.queueEntries.length ∧
      ((state.queueEntries ++ state.queueDeferredCompletions).filterMap
        (·.entryBackgroundKey)).Nodup ∧
      (∀ entry ∈ state.queueDeferredCompletions.head?,
        steeringInputCountLimit < state.queueRetainedCount + 1 ∨
          steeringInputByteLimit < state.queueRetainedBytes + entry.entryBytes) ∧
      (state.queueDeferredCompletions ≠ [] → state.queueEntries ≠ []) ∧
      (state.queueClosed = false → (closeSteeringInputs state).2.queueClosed = true →
        (closeSteeringInputs state).2.queueEntries = [] ∧
          (closeSteeringInputs state).2.queueDeferredCompletions = []) := by
  have hinv : SteeringQueueInvariant state :=
    h.invariant SteeringQueueInvariant.initial fun _ _ _ hi _ hst => hi.step hst
  have hacc := hinv.accounts
  refine ⟨by simpa using hacc.count, by simpa using hacc.bytes, hinv.countLimit ▸ hacc.count_le,
    hinv.byteLimit ▸ hacc.bytes_le, hinv.reserved, hinv.keys, ?_, hinv.entries_ne_nil, ?_⟩
  · intro entry hmem
    have hnot := hinv.head entry hmem
    simp only [InputQueueState.Fits, hinv.countLimit, hinv.byteLimit, length_singleton,
      entryByteSum_cons, entryByteSum_nil, not_and_or] at hnot
    omega
  · intro hopen hclosed
    unfold closeSteeringInputs at hclosed ⊢
    by_cases hempty : state.queueEntries.isEmpty
    · rw [if_pos hempty]
      rw [List.isEmpty_iff] at hempty
      exact ⟨hempty, not_not.mp fun hdef => hinv.entries_ne_nil hdef hempty⟩
    · rw [if_neg hempty] at hclosed
      simp [reserveInputQueueState, hopen] at hclosed

/-- A queue filled with guidance, so that a notice is deferred. -/
def fullQueueRun : List SteeringOp :=
  [.enqueueSteeringInputs (List.replicate 128 (.userMessage [])), .reserveSteeringInputs,
    .enqueueBackgroundCompletion none "build".toList (.userMessage "done".toList)]

theorem steering_queue_invariant_in_fullQueueRun :
    ∃ state, Reachable steeringStep emptySteeringState state ∧
      state.queueDeferredCompletions ≠ [] ∧ state.queueEntries ≠ [] := by
  have hrun : (Machine.run steeringStep emptySteeringState
      fullQueueRun).any (fun state => !state.queueDeferredCompletions.isEmpty) = true := by
    decide +kernel
  obtain ⟨state, hreach, hdef⟩ := exists_reachable_of_run hrun
  have hne : state.queueDeferredCompletions ≠ [] := by simpa using hdef
  exact ⟨state, hreach, hne, (steering_queue_invariant hreach).2.2.2.2.2.2.2.1 hne⟩

end HaskellAgent
