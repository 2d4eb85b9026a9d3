import Mathlib.Data.List.Sort

/-!
# Finite maps as sorted lists of their values

Where every value of a finite map knows its own key, the map is the list of its values in the order
of their keys, with no key occurring twice.  `insert` replaces the value under the same key.

## Main definitions

* `lookup`, `delete`, `insert` — the operations of the map.
* `DistinctKeys` — no key occurs twice.

## Main results

* `filterMap_of_mem` — what a list contributes for one key.
* `lookup_eq_some_iff` — a lookup finds exactly the values of the list.
* `countP_insert`, `countP_delete`, `countP_change` — how the number of values with a property
  changes with the map, and with the property at one of its values.
-/

open List

namespace KeyedList

variable {α κ : Type*} {key : α → κ} {a b : α} {k : κ} {l : List α}

/-- No key occurs twice. -/
def DistinctKeys (key : α → κ) (l : List α) : Prop := (l.map key).Nodup

namespace DistinctKeys

theorem nil : DistinctKeys key ([] : List α) := nodup_nil

theorem nodup (h : DistinctKeys key l) : l.Nodup := List.Nodup.of_map key h

theorem eq_of_mem (h : DistinctKeys key l) (ha : a ∈ l) (hb : b ∈ l) (hkey : key a = key b) :
    a = b :=
  inj_on_of_nodup_map h ha hb hkey

end DistinctKeys

/-- Where a function gives something for one key only, the list contributes the value under it. -/
theorem filterMap_of_mem {β : Type*} {f : α → Option β} (h : DistinctKeys key l) (ha : a ∈ l)
    (hf : ∀ b ∈ l, key b ≠ key a → f b = none) : l.filterMap f = (f a).toList := by
  induction l with
  | nil => exact absurd ha not_mem_nil
  | cons b rest ih =>
    obtain ⟨hb, hrest⟩ := nodup_cons.mp h
    rcases mem_cons.mp ha with rfl | ha
    · -- the others have other keys
      have hnone : rest.filterMap f = [] := by
        rw [filterMap_eq_nil_iff]
        intro c hc
        refine hf c (mem_cons_of_mem _ hc) fun hkey => hb ?_
        exact hkey ▸ List.mem_map_of_mem hc
      cases hfa : f a with
      | none => rw [filterMap_cons_none hfa, hnone]; rfl
      | some c => rw [filterMap_cons_some hfa, hnone]; rfl
    · have hne : key b ≠ key a := fun hkey => hb (hkey ▸ List.mem_map_of_mem ha)
      rw [filterMap_cons_none (hf b mem_cons_self hne)]
      exact ih hrest ha fun c hc => hf c (mem_cons_of_mem _ hc)

variable [DecidableEq κ]

def lookup (key : α → κ) (k : κ) (l : List α) : Option α := l.find? fun a => key a = k

def delete (key : α → κ) (k : κ) (l : List α) : List α := l.filter fun a => key a ≠ k

def insert [LE κ] [DecidableLE κ] (key : α → κ) (a : α) (l : List α) : List α :=
  (delete key (key a) l).orderedInsert (fun a b => key a ≤ key b) a

@[simp] theorem mem_delete : a ∈ delete key k l ↔ a ∈ l ∧ key a ≠ k := by
  simp [delete]

@[simp] theorem mem_insert [LE κ] [DecidableLE κ] :
    b ∈ insert key a l ↔ b = a ∨ b ∈ l ∧ key b ≠ key a := by
  simp [insert, mem_orderedInsert]

/-- Inserting under a new key keeps every value. -/
theorem mem_insert_of_new [LE κ] [DecidableLE κ] (hnew : ∀ b ∈ l, key b ≠ key a) :
    b ∈ insert key a l ↔ b = a ∨ b ∈ l := by
  rw [mem_insert]
  exact or_congr_right ⟨fun h => h.1, fun h => ⟨h, hnew b h⟩⟩

theorem mem_of_lookup (h : lookup key k l = some a) : a ∈ l :=
  List.mem_of_find?_eq_some h

theorem key_of_lookup (h : lookup key k l = some a) : key a = k := by
  simpa using List.find?_some h

theorem lookup_eq_none_iff : lookup key k l = none ↔ ∀ a ∈ l, key a ≠ k := by
  simp [lookup]

@[simp] theorem lookup_delete_self : lookup key k (delete key k l) = none := by
  rw [lookup_eq_none_iff]
  intro a ha
  exact (mem_delete.mp ha).2

/-- Deleting a key keeps the values under the others. -/
theorem lookup_delete_of_ne {k' : κ} (hne : k' ≠ k) :
    lookup key k' (delete key k l) = lookup key k' l := by
  rw [lookup, lookup, delete, List.find?_filter]
  congr 1
  funext a
  by_cases ha : key a = k'
  · simp [ha, hne]
  · simp [ha]

namespace DistinctKeys

theorem delete (h : DistinctKeys key l) (k : κ) : DistinctKeys key (delete key k l) :=
  h.sublist (List.Sublist.map key filter_sublist)

theorem insert [LE κ] [DecidableLE κ] (h : DistinctKeys key l) (a : α) :
    DistinctKeys key (insert key a l) := by
  have hperm : (KeyedList.insert key a l).Perm (a :: KeyedList.delete key (key a) l) :=
    perm_orderedInsert _ _ _
  have hnew : key a ∉ (KeyedList.delete key (key a) l).map key := by
    simp
  exact ((hperm.map key).nodup_iff).mpr (nodup_cons.mpr ⟨hnew, h.delete (key a)⟩)

end DistinctKeys

/-- A lookup finds exactly the values of the list. -/
theorem lookup_eq_some_iff (h : DistinctKeys key l) :
    lookup key k l = some a ↔ a ∈ l ∧ key a = k := by
  refine ⟨fun hl => ⟨mem_of_lookup hl, key_of_lookup hl⟩, ?_⟩
  rintro ⟨ha, rfl⟩
  cases hl : lookup key (key a) l with
  | none => exact absurd rfl (lookup_eq_none_iff.mp hl a ha)
  | some b => rw [h.eq_of_mem (mem_of_lookup hl) ha (key_of_lookup hl)]

/-! ### Counting -/

variable {p q : α → Bool}

/-- Inserting under a new key. -/
theorem countP_insert [LE κ] [DecidableLE κ] (hnew : ∀ b ∈ l, key b ≠ key a) :
    (insert key a l).countP p = l.countP p + (if p a then 1 else 0) := by
  have hdelete : delete key (key a) l = l := by
    refine filter_eq_self.mpr fun b hb => ?_
    simpa using hnew b hb
  rw [insert, hdelete, (perm_orderedInsert _ a l).countP_eq p, countP_cons]

theorem length_insert [LE κ] [DecidableLE κ] (hnew : ∀ b ∈ l, key b ≠ key a) :
    (insert key a l).length = l.length + 1 := by
  have hcount := countP_insert (p := fun _ => true) hnew
  simpa using hcount

/-- Deleting a value by its key. -/
theorem countP_delete (h : DistinctKeys key l) (ha : a ∈ l) :
    (delete key (key a) l).countP p + (if p a then 1 else 0) = l.countP p := by
  induction l with
  | nil => exact absurd ha not_mem_nil
  | cons b l ih =>
    obtain ⟨hb, hl⟩ := nodup_cons.mp h
    rcases mem_cons.mp ha with rfl | ha
    -- keys are distinct, so nothing behind the value is deleted with it
    · have hrest : delete key (key a) l = l := by
        refine filter_eq_self.mpr fun b hbl => ?_
        have hne : key b ≠ key a := fun he => hb (he ▸ List.mem_map_of_mem hbl)
        simpa using hne
      have hhead : delete key (key a) (a :: l) = delete key (key a) l := by simp [delete]
      rw [hhead, hrest, countP_cons]
    · have hne : key b ≠ key a := fun he => hb (he ▸ List.mem_map_of_mem ha)
      have hhead : delete key (key a) (b :: l) = b :: delete key (key a) l := by
        simp [delete, hne]
      rw [hhead, countP_cons, countP_cons, ← ih hl ha]
      omega

/-- Changing a property at one value of a list without repetitions. -/
theorem countP_change (h : l.Nodup) (ha : a ∈ l) (hother : ∀ b ∈ l, b ≠ a → p b = q b) :
    l.countP p + (if q a then 1 else 0) = l.countP q + (if p a then 1 else 0) := by
  induction l with
  | nil => exact absurd ha not_mem_nil
  | cons b l ih =>
    obtain ⟨hb, hl⟩ := nodup_cons.mp h
    rw [countP_cons, countP_cons]
    rcases mem_cons.mp ha with rfl | ha
    -- the value occurs once, so the rest counts alike
    · have hsame : l.countP p = l.countP q := by
        refine countP_congr fun c hc => ?_
        rw [hother c (mem_cons_of_mem _ hc) (fun he => hb (he ▸ hc))]
      rw [hsame]
      omega
    · have hne : b ≠ a := fun he => hb (he ▸ ha)
      have hrest := ih hl ha fun c hc => hother c (mem_cons_of_mem _ hc)
      rw [hother b mem_cons_self hne]
      omega

end KeyedList
