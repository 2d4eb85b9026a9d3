import Mathlib.Algebra.GroupWithZero.Nat
import Mathlib.Algebra.Order.BigOperators.Group.Finset
import HaskellAgent.Lib.FinMap

/-!
# Totals over finite maps

## Main definitions

* `FinMap.total` — the sum of a quantity over the values of a map.

## Main results

* `total_le` — **a map with smaller values has a smaller total**.
* `total_insert_le` — an insertion adds at most the new value.
* `length_filter_keys_insert_le`, `length_filter_keys_delete_le` — the keys with a property.
-/

open List

namespace FinMap

variable {α β : Type*}

theorem sum_filter_map {l : List α} {p : α → Bool} {f : α → ℕ} :
    ((l.filter p).map f).sum = (l.map fun a => if p a then f a else 0).sum := by
  induction l with
  | nil => rfl
  | cons a l ih =>
    rw [map_cons, sum_cons, ← ih]
    cases hp : p a with
    | true => rw [filter_cons_of_pos hp, map_cons, sum_cons, if_pos rfl]
    | false =>
      rw [filter_cons_of_neg (by rw [hp]; exact Bool.false_ne_true),
        if_neg Bool.false_ne_true, Nat.zero_add]

theorem sum_filterMap {γ : Type*} {l : List γ} {lookup : γ → Option α} {f : α → ℕ} :
    ((l.filterMap lookup).map f).sum = (l.map fun k => (lookup k).elim 0 f).sum := by
  induction l with
  | nil => rfl
  | cons k l ih =>
    rw [map_cons, sum_cons, ← ih]
    cases hk : lookup k with
    | none =>
      rw [filterMap_cons_none hk]
      exact (Nat.zero_add _).symm
    | some a =>
      rw [filterMap_cons_some hk, map_cons, sum_cons]
      rfl

variable {κ : Type*} [LinearOrder κ]

/-- The sum of `f` over the values. -/
def total (f : α → ℕ) (m : FinMap κ α) : ℕ := (m.elems.map f).sum

theorem total_eq_sum (f : α → ℕ) (m : FinMap κ α) :
    m.total f = ∑ k ∈ m.keys.toFinset, (m.lookup k).elim 0 f := by
  have hnodup : m.keys.Nodup := m.sorted.imp fun h => ne_of_lt h
  rw [total, elems, sum_filterMap, sum_toFinset _ hnodup]

variable {m : FinMap κ α}

/-- **A map with smaller values has a smaller total.** -/
theorem total_le {n : FinMap κ β} {f : α → ℕ} {g : β → ℕ}
    (h : ∀ k b, n.lookup k = some b → ∃ a, m.lookup k = some a ∧ g b ≤ f a) :
    n.total g ≤ m.total f := by
  rw [total_eq_sum, total_eq_sum]
  have hkeys : n.keys.toFinset ⊆ m.keys.toFinset := by
    intro k hk
    rw [List.mem_toFinset, n.mem_keys] at hk
    obtain ⟨b, hb⟩ := Option.isSome_iff_exists.mp hk
    obtain ⟨a, ha, -⟩ := h k b hb
    rw [List.mem_toFinset, m.mem_keys, ha]
    rfl
  calc ∑ k ∈ n.keys.toFinset, (n.lookup k).elim 0 g
      ≤ ∑ k ∈ n.keys.toFinset, (m.lookup k).elim 0 f := by
        refine Finset.sum_le_sum fun k hk => ?_
        rw [List.mem_toFinset, n.mem_keys] at hk
        obtain ⟨b, hb⟩ := Option.isSome_iff_exists.mp hk
        obtain ⟨a, ha, hle⟩ := h k b hb
        rw [ha, hb]
        exact hle
    _ ≤ ∑ k ∈ m.keys.toFinset, (m.lookup k).elim 0 f := Finset.sum_le_sum_of_subset hkeys

theorem total_insert_le {f : α → ℕ} {k : κ} {a : α} : (m.insert k a).total f ≤ m.total f + f a := by
  rw [total_eq_sum, total_eq_sum]
  have hkeys : (m.insert k a).keys.toFinset ⊆ Insert.insert k (m.keys.toFinset.erase k) := by
    intro j hj
    rw [List.mem_toFinset] at hj
    rcases mem_insertKey.mp hj with rfl | hmem
    · exact Finset.mem_insert_self _ _
    · by_cases heq : j = k
      · exact heq ▸ Finset.mem_insert_self _ _
      · exact Finset.mem_insert_of_mem (Finset.mem_erase.mpr ⟨heq, List.mem_toFinset.mpr hmem⟩)
  calc ∑ j ∈ (m.insert k a).keys.toFinset, ((m.insert k a).lookup j).elim 0 f
      ≤ ∑ j ∈ Insert.insert k (m.keys.toFinset.erase k),
          ((m.insert k a).lookup j).elim 0 f :=
        Finset.sum_le_sum_of_subset hkeys
    _ = f a + ∑ j ∈ m.keys.toFinset.erase k, ((m.insert k a).lookup j).elim 0 f := by
        rw [Finset.sum_insert (Finset.notMem_erase k _), lookup_insert_self]
        rfl
    _ = f a + ∑ j ∈ m.keys.toFinset.erase k, (m.lookup j).elim 0 f := by
        congr 1
        refine Finset.sum_congr rfl fun j hj => ?_
        rw [lookup_insert_of_ne (Finset.ne_of_mem_erase hj)]
    _ ≤ f a + ∑ j ∈ m.keys.toFinset, (m.lookup j).elim 0 f :=
        Nat.add_le_add_left (Finset.sum_le_sum_of_subset (Finset.erase_subset _ _)) _
    _ = ∑ j ∈ m.keys.toFinset, (m.lookup j).elim 0 f + f a := Nat.add_comm _ _

/-! ### Keys -/

theorem filter_insertKey_length_le {p : κ → Bool} {k : κ} {l : List κ} :
    ((insertKey k l).filter p).length ≤ (l.filter p).length + (if p k then 1 else 0) := by
  induction l with
  | nil =>
    rw [insertKey]
    cases hp : p k <;> simp [hp]
  | cons x xs ih =>
    rw [insertKey]
    split
    · cases hp : p k <;> simp [filter_cons, hp]
    · split
      · omega
      · cases hx : p x with
        | true =>
          rw [filter_cons_of_pos hx, filter_cons_of_pos hx, length_cons,
            length_cons]
          omega
        | false =>
          have hneg : ¬ p x = true := by
            rw [hx]
            exact Bool.false_ne_true
          rw [filter_cons_of_neg hneg, filter_cons_of_neg hneg]
          exact ih

/-- An insertion adds its key at most. -/
theorem length_filter_keys_insert_le {p : κ → Bool} {k : κ} {a : α} :
    ((m.insert k a).keys.filter p).length ≤ (m.keys.filter p).length + (if p k then 1 else 0) :=
  filter_insertKey_length_le

theorem length_keys_insert_le {k : κ} {a : α} : (m.insert k a).keys.length ≤ m.keys.length + 1 := by
  have h := length_filter_keys_insert_le (m := m) (p := fun _ => true) (k := k) (a := a)
  rw [filter_true, filter_true, if_pos rfl] at h
  exact h

theorem length_filter_keys_delete_le {p : κ → Bool} {k : κ} :
    ((m.delete k).keys.filter p).length ≤ (m.keys.filter p).length :=
  (filter_sublist.filter p).length_le

theorem length_keys_delete_le {k : κ} : (m.delete k).keys.length ≤ m.keys.length :=
  length_filter_le _ _

end FinMap
