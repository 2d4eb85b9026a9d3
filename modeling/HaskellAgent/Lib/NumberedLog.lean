import Mathlib.Data.Int.Order.Basic
import Mathlib.Data.List.TakeDrop

/-!
# Logs whose entries are numbered

A log grows at its end, and its entries carry the numbers `1, 2, …` in order.  What a bounded buffer
or a bounded queue keeps of it is a window: the log without some entries at its front.  So the
number of a window's first entry says how much of the log is missing before it.

## Main definitions

* `Numbered number log` — the entries carry their positions, counted from `1`.
* `keepLast n log` — the last `n` entries.

## Main results

* `Numbered.concat` — an entry with the next number may be appended.
* `Numbered.head_drop` — the first entry of a window has the number of its position.
* `Numbered.filter_drop` — **the entries of a window above a number are the window from there on**.
-/

open List

namespace NumberedLog

variable {α : Type*} {number : α → ℤ} {log : List α} {a : α} {k n : ℕ}

/-- The entries carry the numbers `1, 2, …` in order. -/
def Numbered (number : α → ℤ) (log : List α) : Prop :=
  ∀ i (h : i < log.length), number log[i] = i + 1

/-- The last `n` entries of a log. -/
def keepLast (n : ℕ) (log : List α) : List α := log.drop (log.length - n)

theorem Numbered.nil : Numbered number ([] : List α) := by
  intro i h
  cases h

section

variable (h : Numbered number log)
include h

/-- **An entry with the next number may be appended.** -/
theorem Numbered.concat (ha : number a = log.length + 1) :
    Numbered number (log ++ [a]) := by
  intro i hi
  rw [getElem_append]
  split
  · next hlt => exact h i hlt
  · next hge =>
    have hlast : i = log.length := by
      rw [length_append, length_singleton] at hi
      omega
    simp only [hlast, Nat.sub_self, getElem_cons_zero, ha]

theorem Numbered.of_mem (ha : a ∈ log) :
    1 ≤ number a ∧ number a ≤ log.length := by
  obtain ⟨i, hi, rfl⟩ := getElem_of_mem ha
  rw [h i hi]
  omega

/-- The first entry of a window has the number of its position. -/
theorem Numbered.head_drop {rest : List α} (hd : log.drop k = a :: rest) :
    number a = k + 1 ∧ k < log.length ∧ a ∈ log ∧ log.drop (k + 1) = rest := by
  have hk : k < log.length := by
    by_contra hge
    rw [drop_eq_nil_of_le (Nat.le_of_not_lt hge)] at hd
    cases hd
  rw [drop_eq_getElem_cons hk, List.cons.injEq] at hd
  obtain ⟨rfl, hrest⟩ := hd
  exact ⟨h k hk, hk, getElem_mem hk, hrest⟩

/-- The last entry of a log has the number of its length. -/
theorem Numbered.getLast (hl : log.getLast? = some a) :
    number a = log.length := by
  rw [List.getLast?_eq_getElem?, List.getElem?_eq_some_iff] at hl
  obtain ⟨hlt, rfl⟩ := hl
  rw [h _ hlt]
  omega

/-- **The entries of a window above a number are the window from there on.** -/
theorem Numbered.filter_drop (r : ℤ) (k : ℕ) :
    (log.drop k).filter (fun a => decide (r < number a)) = log.drop (max k r.toNat) := by
  induction hlen : log.length - k generalizing k with
  | zero =>
    rw [drop_eq_nil_of_le (by omega), drop_eq_nil_of_le (by omega), filter_nil]
  | succ m ih =>
    have hk : k < log.length := by omega
    rw [drop_eq_getElem_cons hk, filter_cons, h k hk, ih (k + 1) (by omega)]
    by_cases hr : r < (k : ℤ) + 1
    · -- from here on every number is above
      have h₁ : max k r.toNat = k := by omega
      have h₂ : max (k + 1) r.toNat = k + 1 := by omega
      rw [h₁, h₂, decide_eq_true hr, if_pos rfl, ← drop_eq_getElem_cons hk]
    · have h₁ : max (k + 1) r.toNat = max k r.toNat := by omega
      rw [h₁, decide_eq_false hr, if_neg Bool.false_ne_true]

/-- The entries of a log above a number. -/
theorem Numbered.filter (r : ℤ) :
    log.filter (fun a => decide (r < number a)) = log.drop r.toNat := by
  have hfilter := h.filter_drop r 0
  rwa [drop_zero, Nat.zero_max] at hfilter

/-- The entries of a window are in ascending order of their numbers. -/
theorem Numbered.pairwise_drop (k : ℕ) :
    (log.drop k).Pairwise fun a b => number a < number b := by
  rw [pairwise_iff_getElem]
  intro i j hi hj hij
  rw [getElem_drop, getElem_drop, h _ _, h _ _]
  push_cast
  omega

end

theorem drop_concat (h : k ≤ log.length) : (log ++ [a]).drop k = log.drop k ++ [a] :=
  drop_append_of_le_length h

end NumberedLog
