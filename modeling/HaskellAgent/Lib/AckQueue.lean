import Mathlib.Data.List.Infix

/-!
# Queues acknowledged by prefix

A queue whose reader takes a snapshot of all entries and later acknowledges a prefix of them by
its length.  Reading *reserves* the entries it returned: until they are acknowledged, only entries
behind the reserved ones may be withdrawn, so the length still denotes the entries that were read.

## Main definitions

* `AckQueue` — the entries and how many of them are reserved.
* `append`, `reserve`, `commit`, `dismiss` — the operations.
* `WellFormed` — no more entries are reserved than there are.
-/

/-- A queue with a reserved prefix. -/
structure AckQueue (α : Type*) where
  entries : List α
  reserved : ℕ

open List

namespace AckQueue

variable {α β : Type*}

/-- Accept new entries at the end. -/
def append (q : AckQueue α) (new : List α) : AckQueue α :=
  { q with entries := q.entries ++ new }

/-- Reserve every entry for the reader. -/
def reserve (q : AckQueue α) : AckQueue α :=
  { q with reserved := q.entries.length }

/-- Acknowledge the first `n` entries. -/
def commit (q : AckQueue α) (n : ℕ) : AckQueue α where
  entries := q.entries.drop n
  reserved := q.reserved - n

/-- Withdraw the entries satisfying `p` that no reader has reserved. -/
def dismiss (q : AckQueue α) (p : α → Bool) : AckQueue α :=
  { q with
    entries := q.entries.take q.reserved ++ (q.entries.drop q.reserved).filter (fun a => !p a) }

/-- The same queue seen through a view of its entries. -/
def map (f : α → β) (q : AckQueue α) : AckQueue β where
  entries := q.entries.map f
  reserved := q.reserved

/-- Only entries that are there are reserved. -/
def WellFormed (q : AckQueue α) : Prop := q.reserved ≤ q.entries.length

@[simp] theorem append_entries (q : AckQueue α) (new : List α) :
    (q.append new).entries = q.entries ++ new := rfl

@[simp] theorem append_reserved (q : AckQueue α) (new : List α) :
    (q.append new).reserved = q.reserved := rfl

@[simp] theorem reserve_entries (q : AckQueue α) : q.reserve.entries = q.entries := rfl

@[simp] theorem commit_entries (q : AckQueue α) (n : ℕ) :
    (q.commit n).entries = q.entries.drop n := rfl

@[simp] theorem commit_reserved (q : AckQueue α) (n : ℕ) :
    (q.commit n).reserved = q.reserved - n := rfl

@[simp] theorem append_nil (q : AckQueue α) : q.append [] = q := by
  simp [append]

/-! ### Well-formedness -/

variable {q : AckQueue α}

theorem WellFormed.append (h : q.WellFormed) (new : List α) :
    (q.append new).WellFormed := by
  simp only [WellFormed, append_reserved, append_entries, length_append] at h ⊢
  omega

theorem WellFormed.reserve (q : AckQueue α) : q.reserve.WellFormed := le_refl _

theorem WellFormed.commit (h : q.WellFormed) (n : ℕ) :
    (q.commit n).WellFormed := by
  simp only [WellFormed, commit_reserved, commit_entries, length_drop] at h ⊢
  omega

theorem WellFormed.dismiss (h : q.WellFormed) (p : α → Bool) :
    (q.dismiss p).WellFormed := by
  simp only [WellFormed, AckQueue.dismiss, length_append, length_take] at h ⊢
  omega

/-! ### The reserved prefix is stable -/

/-- New entries do not move the ones already there. -/
theorem take_append_entries (q : AckQueue α) (new : List α) {n : ℕ} (hn : n ≤ q.entries.length) :
    (q.append new).entries.take n = q.entries.take n := by
  rw [append_entries, take_append_of_le_length hn]

/-- Withdrawing entries does not move the reserved ones. -/
theorem take_dismiss_entries (h : q.WellFormed) (p : α → Bool) {n : ℕ}
    (hn : n ≤ q.reserved) : (q.dismiss p).entries.take n = q.entries.take n := by
  have hlen : n ≤ (q.entries.take q.reserved).length := by
    rw [length_take]
    have := h
    unfold WellFormed at this
    omega
  rw [dismiss, take_append_of_le_length hlen, take_take, min_eq_left hn]

/-- Withdrawing keeps a sublist. -/
theorem dismiss_sublist (q : AckQueue α) (p : α → Bool) :
    (q.dismiss p).entries.Sublist q.entries := by
  conv_rhs => rw [← take_append_drop q.reserved q.entries]
  exact List.Sublist.append (List.Sublist.refl _) filter_sublist

end AckQueue
