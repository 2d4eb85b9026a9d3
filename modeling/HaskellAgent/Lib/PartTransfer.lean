import HaskellAgent.Lib.Machine
import Mathlib.Data.List.Range

/-!
# Transfers in numbered parts

Something is transmitted in parts, one after the other.  Each transmission gets an answer, and the
answer decides what may follow: a receipt lets the next part be transmitted, a permission to try
again the same part, and after any other answer the transfer is over.

## Main definitions

* `Transfer.Event`, `Transfer.State`, `Transfer.step` — the transfers that are allowed.
* `Transfer.accepted` — the receipts.

## Main results

* `Transfer.accepted_before` — **a part is transmitted when exactly the earlier ones have been
  accepted**.
* `Transfer.retryable_of_again` — a part is transmitted again only where the answer allowed it.
* `Transfer.no_transmission_of_closed`, `Transfer.no_transmission_of_final` — after its end a
  transfer transmits nothing.
-/

open List Option

namespace Transfer

/-- What happens to a transfer: answers `α` to a transmission, and receipts `μ`. -/
inductive Event (α μ : Type)
  | transmitted (part : ℕ) (answer : α)
  | accepted (part : ℕ) (receipt : μ)
  | postponed (part : ℕ)
  | closed

inductive State (α : Type)
  | ready (part : ℕ)
  | awaiting (part : ℕ) (answer : α)
  | closed (part : ℕ)

variable {α μ : Type}

/-- The part that has not been accepted yet. -/
def State.part : State α → ℕ
  | .ready part => part
  | .awaiting part _ => part
  | .closed part => part

section Step

variable [DecidableEq μ] (receipt : α → Option μ) (retryable : α → Bool)

def step : State α → Event α μ → Option (State α)
  | .ready i, .transmitted j answer => if j = i then some (.awaiting i answer) else none
  | .ready i, .closed => some (.closed i)
  | .awaiting i answer, .accepted j m =>
    if j = i ∧ receipt answer = some m then some (.ready (i + 1)) else none
  | .awaiting i answer, .postponed j =>
    if j = i ∧ retryable answer = true then some (.ready i) else none
  | .awaiting i _, .closed => some (.closed i)
  | .closed i, .closed => some (.closed i)
  | _, _ => none

variable {receipt retryable} {s s' : State α} {es header rest : List (Event α μ)}

/-- The numbers of the parts that have been accepted, in order. -/
def accepted : List (Event α μ) → List ℕ :=
  List.filterMap fun
    | .accepted part _ => some part
    | _ => none

theorem mem_accepted {part : ℕ} : part ∈ accepted es ↔ ∃ m, Event.accepted part m ∈ es := by
  rw [accepted, mem_filterMap]
  constructor
  · rintro ⟨e, he, heq⟩
    cases e with
    | accepted j m =>
      cases heq
      exact ⟨m, he⟩
    | transmitted j answer | postponed j | closed => cases heq
  · rintro ⟨m, hm⟩
    exact ⟨_, hm, rfl⟩

theorem part_le_of_step {e : Event α μ} (h : step receipt retryable s e = some s') :
    s.part ≤ s'.part := by
  cases s <;> cases e <;> simp only [step] at h
  all_goals first
    | cases h; done
    | (split at h
       · cases h
         simp only [State.part]
         omega
       · cases h)
    | (cases h
       exact le_refl _)

theorem part_le_of_run (h : Machine.run (step receipt retryable) s es = some s') :
    s.part ≤ s'.part := by
  induction es generalizing s with
  | nil =>
    cases h
    exact le_refl _
  | cons e es ih =>
    obtain ⟨t, ht, hrun⟩ := bind_eq_some_iff.mp h
    exact le_trans (part_le_of_step ht) (ih hrun)

/-- The parts are accepted one after the other. -/
theorem accepted_of_run (h : Machine.run (step receipt retryable) s es = some s') :
    accepted es = List.range' s.part (s'.part - s.part) := by
  induction es generalizing s with
  | nil =>
    cases h
    simp [accepted]
  | cons e es ih =>
    obtain ⟨t, ht, hrun⟩ := bind_eq_some_iff.mp h
    have hrest := ih hrun
    have hle := part_le_of_run hrun
    cases s with
    | ready i =>
      cases e with
      | transmitted j answer =>
        simp only [step] at ht
        split at ht
        · cases ht
          exact hrest
        · cases ht
      | closed =>
        cases ht
        exact hrest
      | accepted j m | postponed j => cases ht
    | awaiting i answer =>
      cases e with
      | transmitted j answer => cases ht
      | closed =>
        cases ht
        exact hrest
      | accepted j m =>
        simp only [step] at ht
        split at ht
        · next hj =>
          cases ht
          obtain ⟨rfl, -⟩ := hj
          have hle : j + 1 ≤ s'.part := hle
          have hlen : s'.part - j = (s'.part - (j + 1)) + 1 := by omega
          show j :: accepted es = List.range' j (s'.part - j)
          rw [hlen, range'_succ, hrest]
          rfl
        · cases ht
      | postponed j =>
        simp only [step] at ht
        split at ht
        · cases ht
          exact hrest
        · cases ht
    | closed i =>
      cases e with
      | closed =>
        cases ht
        exact hrest
      | transmitted j answer | accepted j m | postponed j => cases ht

theorem run_split (h : Machine.run (step receipt retryable) s (header ++ rest) = some s') :
    ∃ t, Machine.run (step receipt retryable) s header = some t ∧
      Machine.run (step receipt retryable) t rest = some s' := by
  induction header generalizing s with
  | nil => exact ⟨s, rfl, h⟩
  | cons e header ih =>
    obtain ⟨t, ht, hrun⟩ := bind_eq_some_iff.mp h
    obtain ⟨u, hu, hrest⟩ := ih hrun
    exact ⟨u, bind_eq_some_iff.mpr ⟨t, ht, hu⟩, hrest⟩

theorem run_concat {e : Event α μ} (h : Machine.run (step receipt retryable) s es = some s')
    {s'' : State α} (he : step receipt retryable s' e = some s'') :
    Machine.run (step receipt retryable) s (es ++ [e]) = some s'' := by
  induction es generalizing s with
  | nil =>
    cases h
    exact bind_eq_some_iff.mpr ⟨s'', he, rfl⟩
  | cons f es ih =>
    obtain ⟨t, ht, hrun⟩ := bind_eq_some_iff.mp h
    exact bind_eq_some_iff.mpr ⟨t, ht, ih hrun⟩

variable {answer : α}

variable {j : ℕ}

/-- A transmission is of the part that is next. -/
theorem ready_of_transmitted
    (h : Machine.run (step receipt retryable) s (.transmitted j answer :: rest) = some s') :
    s = .ready j ∧ Machine.run (step receipt retryable) (.awaiting j answer) rest = some s' := by
  obtain ⟨t, ht, hrun⟩ := bind_eq_some_iff.mp h
  cases s with
  | ready i =>
    simp only [step] at ht
    split at ht
    · next hj =>
      subst hj
      cases ht
      exact ⟨rfl, hrun⟩
    · cases ht
  | awaiting i answer | closed i => cases ht

/-- **A part is transmitted when exactly the earlier ones have been accepted.** -/
theorem accepted_before
    (h : Machine.run (step receipt retryable) (.ready 0) (header ++ .transmitted j answer :: rest) =
      some s') : accepted header = List.range j := by
  obtain ⟨t, ht, hrun⟩ := run_split h
  obtain ⟨rfl, -⟩ := ready_of_transmitted hrun
  rw [accepted_of_run ht, range_eq_range']
  rfl

/-- A transfer that is over transmits nothing. -/
theorem no_transmission_of_closed {i : ℕ}
    (h : Machine.run (step receipt retryable) (.closed i) es = some s') {answer : α} :
    Event.transmitted j answer ∉ es := by
  induction es with
  | nil => exact not_mem_nil
  | cons e es ih =>
    obtain ⟨t, ht, hrun⟩ := bind_eq_some_iff.mp h
    cases e with
    | closed =>
      cases ht
      intro hmem
      rcases mem_cons.mp hmem with heq | hmem
      · cases heq
      · exact ih hrun hmem
    | transmitted k a | accepted k m | postponed k => cases ht

/-- What follows an answer that lets the part be neither accepted nor tried again. -/
theorem no_transmission_of_final {i : ℕ}
    (h : Machine.run (step receipt retryable) (.awaiting i answer) es = some s')
    (hreceipt : receipt answer = none) (hretry : retryable answer = false) {a : α} :
    Event.transmitted j a ∉ es := by
  cases es with
  | nil => exact not_mem_nil
  | cons e es =>
    obtain ⟨t, ht, hrun⟩ := bind_eq_some_iff.mp h
    cases e with
    | closed =>
      cases ht
      intro hmem
      rcases mem_cons.mp hmem with heq | hmem
      · cases heq
      · exact no_transmission_of_closed hrun hmem
    | transmitted k b => cases ht
    | accepted k m => simp [step, hreceipt] at ht
    | postponed k => simp [step, hretry] at ht

/-- Later transmissions are of the same part or of later ones. -/
theorem part_le_of_transmitted (h : Machine.run (step receipt retryable) s es = some s')
    (hmem : Event.transmitted j answer ∈ es) : s.part ≤ j := by
  obtain ⟨header, rest, rfl⟩ := append_of_mem hmem
  obtain ⟨t, ht, hrun⟩ := run_split h
  obtain ⟨rfl, -⟩ := ready_of_transmitted hrun
  exact part_le_of_run ht

/-- **A part is transmitted again only where its answer allowed it.** -/
theorem retryable_of_again {a : α}
    (h : Machine.run (step receipt retryable) s (header ++ .transmitted j answer :: rest) = some s')
    (hmem : Event.transmitted j a ∈ rest) : retryable answer = true := by
  obtain ⟨t, -, hrun⟩ := run_split h
  obtain ⟨-, hrest⟩ := ready_of_transmitted hrun
  cases rest with
  | nil => cases hmem
  | cons e rest =>
    obtain ⟨u, hu, hrun⟩ := bind_eq_some_iff.mp hrest
    cases e with
    | transmitted k b => cases hu
    | closed =>
      cases hu
      rcases mem_cons.mp hmem with heq | hmem
      · cases heq
      · exact absurd hmem (no_transmission_of_closed hrun)
    | postponed k =>
      simp only [step] at hu
      split at hu
      · next hk => exact hk.2
      · cases hu
    | accepted k m =>
      simp only [step] at hu
      split at hu
      · cases hu
        rcases mem_cons.mp hmem with heq | hmem
        · cases heq
        · have hle := part_le_of_transmitted hrun hmem
          simp only [State.part] at hle
          omega
      · cases hu

/-- Nothing is transmitted once the transfer has been closed. -/
theorem no_transmission_after_closed
    (h : Machine.run (step receipt retryable) s (header ++ .closed :: rest) = some s')
    {answer : α} : Event.transmitted j answer ∉ rest := by
  obtain ⟨t, -, hrun⟩ := run_split h
  obtain ⟨u, hu, hrest⟩ := bind_eq_some_iff.mp hrun
  cases t <;>
  · cases hu
    exact no_transmission_of_closed hrest

/-- An answer is awaited only after a transmission. -/
theorem transmitted_of_awaiting
    (h : Machine.run (step receipt retryable) s es = some (.awaiting j answer)) :
    s = .awaiting j answer ∨ Event.transmitted j answer ∈ es := by
  induction es generalizing s with
  | nil => exact .inl (some.inj h)
  | cons e es ih =>
    obtain ⟨u, hu, hrun⟩ := bind_eq_some_iff.mp h
    refine .inr ?_
    rcases ih hrun with rfl | hmem
    · have he : e = .transmitted j answer := by
        cases s <;> cases e <;> simp only [step] at hu <;> first
          | cases hu; done
          | (split at hu
             · next hk =>
               obtain ⟨rfl, rfl⟩ := State.awaiting.inj (some.inj hu)
               rw [hk]
             · cases hu)
          | (split at hu
             · cases hu
             · cases hu)
      exact he ▸ mem_cons_self
    · exact mem_cons_of_mem _ hmem

/-- A part is accepted with the receipt of a transmission. -/
theorem transmitted_of_accepted {m : μ}
    (h : Machine.run (step receipt retryable) (.ready 0) (header ++ .accepted j m :: rest) =
      some s') :
    ∃ answer, Event.transmitted j answer ∈ header ∧ receipt answer = some m := by
  obtain ⟨t, ht, hrun⟩ := run_split h
  obtain ⟨u, hu, -⟩ := bind_eq_some_iff.mp hrun
  cases t with
  | awaiting i answer =>
    simp only [step] at hu
    split at hu
    · next hj =>
      obtain ⟨rfl, hreceipt⟩ := hj
      rcases transmitted_of_awaiting ht with hs | hmem
      · cases hs
      · exact ⟨answer, hmem, hreceipt⟩
    · cases hu
  | ready i | closed i => cases hu

end Step

end Transfer
