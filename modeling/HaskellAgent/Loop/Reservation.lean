import HaskellAgent.Loop.QueueAccounts

/-!
# Acknowledgement by count

A provider acknowledges the inputs it was given by their number.  Between the read that handed them
out and the acknowledgement, guidance and notices arrive, notices are dismissed and wakes are
consumed; the number denotes the same entries only because every read reserves its positions.
-/

open List Machine
open Option hiding min_eq_left

namespace HaskellAgent

variable {ι : Type*} {state next : InputQueueState ι}

/-! ### Reads and what may follow them -/

/-- The operations that hand entries to a provider and reserve their positions. -/
inductive SteeringRead
  | reserveSteeringInputs
  | readSteeringTurn
  | closeSteeringInputs
  deriving DecidableEq, Repr

/-- The inputs a read returns, and the queue after it. -/
def SteeringRead.apply (state : InputQueueState TurnInput) :
    SteeringRead → List TurnInput × InputQueueState TurnInput
  | .reserveSteeringInputs => HaskellAgent.reserveSteeringInputs state
  | .readSteeringTurn =>
      let ((_, inputs), next) := HaskellAgent.readSteeringTurn state
      (inputs, next)
  | .closeSteeringInputs => HaskellAgent.closeSteeringInputs state

/-- Neither an acknowledgement nor a reset. -/
def SteeringOp.Keeps : SteeringOp → Prop
  | .commitSteeringInputs _ => False
  | .clearSteeringInputs => False
  | _ => True

instance : DecidablePred SteeringOp.Keeps
  | .commitSteeringInputs _ => isFalse id
  | .clearSteeringInputs => isFalse id
  | .enqueueSteeringInputs _ => isTrue trivial
  | .enqueueBackgroundCompletion .. => isTrue trivial
  | .reserveSteeringInputs => isTrue trivial
  | .readSteeringTurn => isTrue trivial
  | .closeSteeringInputs => isTrue trivial
  | .awaitSteeringInput => isTrue trivial
  | .suppressUserSteeringWake => isTrue trivial
  | .dismissBackgroundCompletion _ => isTrue trivial

/-- The queue starts with the entries that were submitted, up to their wake marks, and protects
them. -/
structure Submitted (submitted : List (InputEntry ι)) (state : InputQueueState ι) : Prop where
  reserved : submitted.length ≤ state.queueReservedCount
  entries : (state.queueEntries.take submitted.length).map clearWake = submitted.map clearWake

namespace Submitted

variable {submitted : List (InputEntry ι)}

theorem length_le (h : Submitted submitted state) :
    submitted.length ≤ state.queueEntries.length := by
  have hlen := congrArg List.length h.entries
  rw [length_map, length_map, length_take] at hlen
  omega

theorem nil (state : InputQueueState ι) : Submitted [] state := ⟨Nat.zero_le _, rfl⟩

section

variable (h : Submitted submitted state)
include h

/-- Entries that arrive behind the submitted ones do not move them. -/
theorem append {new : List (InputEntry ι)}
    (hentries : next.queueEntries = state.queueEntries ++ new)
    (hreserved : next.queueReservedCount = state.queueReservedCount) :
    Submitted submitted next where
  reserved := hreserved ▸ h.reserved
  entries := by
    rw [hentries, take_append_of_le_length h.length_le]
    exact h.entries

theorem promote :
    Submitted submitted (promoteDeferredCompletions state) := by
  obtain ⟨moved, left, -, -, hreserved, hentries⟩ :=
    promoteLoop_spec state.queueDeferredCompletions state
  exact h.append hentries hreserved

/-- Wake marks do not matter, and a further read only protects more. -/
theorem of_marks (hentries : next.queueEntries.map clearWake = state.queueEntries.map clearWake)
    (hreserved : state.queueReservedCount ≤ next.queueReservedCount ∨
      next.queueReservedCount = next.queueEntries.length) : Submitted submitted next where
  reserved := by
    have hlen := congrArg List.length hentries
    have hle := h.length_le
    have hres := h.reserved
    rw [length_map, length_map] at hlen
    omega
  entries := by
    rw [map_take, hentries, ← map_take]
    exact h.entries

theorem reserve :
    Submitted submitted (reserveInputQueueState state) :=
  h.of_marks rfl (.inr rfl)

/-- Dismissal starts behind the reserved entries. -/
theorem dismiss (key : Text) :
    Submitted submitted (dismissBackgroundCompletion key state) := by
  refine promote ⟨h.reserved, ?_⟩
  have hle := h.length_le
  have hres := h.reserved
  have hkept : submitted.length ≤ (state.queueEntries.take state.queueReservedCount).length := by
    rw [length_take]
    omega
  -- the reserved entries are taken over as they are, and the submitted ones are among them
  simp only [withdrawCompletion]
  rw [take_append_of_le_length hkept, take_take, min_eq_left hres]
  exact h.entries

theorem enqueueInputs (bytes : ι → ℕ) (inputs : List ι) :
    Submitted submitted (enqueueSteeringInputs bytes state inputs).2 := by
  unfold enqueueSteeringInputs
  simp only
  split
  · exact h
  · split
    · exact h
    · next happ =>
      obtain ⟨hentries, hreserved, -, -⟩ := appendEntries_eq_some happ
      exact h.append hentries hreserved

theorem enqueueCompletion (bytes : ι → ℕ) (epoch : Option ℕ)
    (key : Text) (input : ι) :
    Submitted submitted (enqueueBackgroundCompletion bytes epoch key input state).2 := by
  unfold enqueueBackgroundCompletion
  split
  · exact h
  · split
    · exact h
    · exact promote ⟨h.reserved, h.entries⟩

theorem close :
    Submitted submitted (closeSteeringInputs state).2 := by
  unfold closeSteeringInputs
  split
  · exact ⟨h.reserved, h.entries⟩
  · exact h.reserve

theorem await (hst : awaitSteeringInput state = some next) :
    Submitted submitted next := by
  unfold awaitSteeringInput at hst
  split at hst
  · cases hst
    exact h.of_marks (by simp [clearWake]) (.inl (le_refl _))
  · cases hst

theorem suppress :
    Submitted submitted (suppressUserSteeringWake state) := by
  refine h.of_marks ?_ (.inl (le_refl _))
  simp only [suppressUserSteeringWake, List.map_map]
  refine map_congr_left fun entry _ => ?_
  simp only [Function.comp_apply]
  split <;> rfl

end

end Submitted

theorem Submitted.step {submitted : List (InputEntry TurnInput)}
    {state next : InputQueueState TurnInput} (h : Submitted submitted state) {op : SteeringOp}
    (hop : op.Keeps) (hst : steeringStep state op = some next) : Submitted submitted next := by
  cases op with
  | awaitSteeringInput => exact h.await hst
  | enqueueSteeringInputs inputs => exact some.inj hst ▸ h.enqueueInputs _ inputs
  | enqueueBackgroundCompletion epoch key input =>
    exact some.inj hst ▸ h.enqueueCompletion _ epoch key input
  | reserveSteeringInputs | readSteeringTurn => exact some.inj hst ▸ h.reserve
  | closeSteeringInputs => exact some.inj hst ▸ h.close
  | suppressUserSteeringWake => exact some.inj hst ▸ h.suppress
  | dismissBackgroundCompletion key => exact some.inj hst ▸ h.dismiss key
  | commitSteeringInputs count | clearSteeringInputs => exact hop.elim

/-- What a read returns is what it protects. -/
theorem SteeringRead.submitted (read : SteeringRead) (state : InputQueueState TurnInput) :
    (read.apply state).1 = state.queueEntries.map (·.entryInput) ∧
      Submitted state.queueEntries (read.apply state).2 := by
  have hreserve : Submitted state.queueEntries (reserveInputQueueState state) :=
    ⟨le_refl _, by simp [reserveInputQueueState]⟩
  cases read with
  | reserveSteeringInputs | readSteeringTurn => exact ⟨rfl, hreserve⟩
  | closeSteeringInputs =>
    simp only [SteeringRead.apply, HaskellAgent.closeSteeringInputs]
    split
    -- only an empty queue is closed, so nothing is returned and nothing is protected
    · next hempty =>
      rw [List.isEmpty_iff] at hempty
      rw [hempty]
      exact ⟨rfl, Submitted.nil _⟩
    · exact ⟨rfl, hreserve⟩

/-- **Reserved prefixes are stable.**  Whatever arrives, is dismissed or consumes wakes between a
read and its acknowledgement, committing as many entries as were read removes those entries, in
their order, and no other; only deferred notices join the queue. -/
theorem reserved_prefix_stable (read : SteeringRead) (state : InputQueueState TurnInput)
    {later : InputQueueState TurnInput}
    (h : ReachableBy steeringStep (fun _ op => op.Keeps) (read.apply state).2 later) :
    ∃ submitted rest promoted left,
      later.queueEntries = submitted ++ rest ∧
      submitted.map clearWake = state.queueEntries.map clearWake ∧
      submitted.map (·.entryInput) = (read.apply state).1 ∧
      later.queueDeferredCompletions = promoted ++ left ∧
      (commitSteeringInputs (read.apply state).1.length later).queueEntries
        = rest ++ promoted.map (fun entry => { entry with entryWake := true }) ∧
      (commitSteeringInputs (read.apply state).1.length later).queueDeferredCompletions = left := by
  obtain ⟨hinputs, hread⟩ := read.submitted state
  have hsub : Submitted state.queueEntries later :=
    h.invariant hread fun _ _ _ hi hop hst => hi.step hop hst
  have hlen : (read.apply state).1.length = state.queueEntries.length := by
    rw [hinputs, length_map]
  have hcount : (max 0 ((read.apply state).1.length : ℤ)).toNat = state.queueEntries.length := by
    omega
  -- the acknowledgement frees budget, so deferred notices join behind the rest
  obtain ⟨promoted, left, hdeferred, hleft, -, hentries⟩ :=
    promoteLoop_spec later.queueDeferredCompletions
      (dropAcknowledged state.queueEntries.length later)
  refine ⟨later.queueEntries.take state.queueEntries.length,
    later.queueEntries.drop state.queueEntries.length, promoted, left,
    (take_append_drop _ _).symm, hsub.entries, ?_, hdeferred, ?_, ?_⟩
  · have hmap := congrArg (List.map (·.entryInput)) hsub.entries
    rw [List.map_map, List.map_map] at hmap
    rw [hinputs]
    exact hmap
  · rw [commitSteeringInputs, hcount]
    exact hentries
  · rw [commitSteeringInputs, hcount]
    exact hleft

/-- A notice is read, dismissed while it is being submitted, and then acknowledged. -/
theorem reserved_prefix_stable_under_dismissal :
    ∃ later, ReachableBy steeringStep (fun _ op => op.Keeps)
        (SteeringRead.apply
          (enqueueBackgroundCompletion logicalTurnInputBytes none "build".toList
            (.userMessage "done".toList) emptySteeringState).2 .reserveSteeringInputs).2 later ∧
      ∃ submitted rest, later.queueEntries = submitted ++ rest ∧
        submitted.map (·.entryInput) = [.userMessage "done".toList] := by
  have hrun : (Machine.run (guarded (fun _ op => op.Keeps) steeringStep)
      (SteeringRead.apply
        (enqueueBackgroundCompletion logicalTurnInputBytes none "build".toList
          (.userMessage "done".toList) emptySteeringState).2 .reserveSteeringInputs).2
      [.dismissBackgroundCompletion "build".toList,
        .enqueueSteeringInputs [.userMessage "more".toList]]).any (fun _ => true) = true := by
    decide +kernel
  obtain ⟨later, hreach, -⟩ := exists_reachableBy_of_run hrun
  obtain ⟨submitted, rest, -, -, hsplit, -, hinputs, -⟩ :=
    reserved_prefix_stable .reserveSteeringInputs _ hreach
  exact ⟨later, hreach, submitted, rest, hsplit, hinputs.trans (by decide +kernel)⟩

end HaskellAgent
