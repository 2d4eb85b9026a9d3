import Mathlib.Data.List.Sort
import Mathlib.Data.Finset.Max

/-!
# Finite maps over a linear order

A finite map is a partial function together with the ascending list of the keys where it is defined.
The list is determined by the function, so two maps with the same values are equal.

## Main definitions

* `FinMap κ α` — finite maps.
* `insert`, `delete`, `alter`, `adjust`, `map`, `mapWithKey`, `filter`, `unionWith`, `ofList` — the
  operations.
* `elems`, `lastKey`, `lowest` — the values in order of their keys, the greatest key, and the least
  key whose value has a property.
* `keysWith`, `least` — the keys whose values have a property, as a set, and the least of a set.

## Main results

* `FinMap.ext` — **maps with the same values are equal**.
* `lookup_insert` — the values after an insertion.
* `lowest_eq_least` — **the least key with a property is the least of the keys with it**.
-/

/-- A partial function with the ascending list of the keys where it is defined. -/
structure FinMap (κ α : Type*) [LinearOrder κ] where
  lookup : κ → Option α
  keys : List κ
  sorted : keys.Pairwise (· < ·)
  mem_keys : ∀ k, k ∈ keys ↔ (lookup k).isSome

open List Function
open Option hiding or_assoc

namespace FinMap

variable {κ α β : Type*} [LinearOrder κ]

/-- **Maps with the same values are equal.** -/
@[ext] theorem ext {m n : FinMap κ α} (h : ∀ k, m.lookup k = n.lookup k) : m = n := by
  have hlookup : m.lookup = n.lookup := funext h
  -- the keys are where the function is defined, in the one ascending order
  have hkeys : m.keys = n.keys := by
    refine m.sorted.eq_of_mem_iff n.sorted fun k => ?_
    rw [m.mem_keys, n.mem_keys, hlookup]
  cases m
  cases n
  cases hlookup
  cases hkeys
  rfl

instance [DecidableEq α] : DecidableEq (FinMap κ α) := fun m n =>
  decidable_of_iff (m.keys = n.keys ∧ ∀ k ∈ m.keys, m.lookup k = n.lookup k) <| by
    constructor
    · rintro ⟨hkeys, h⟩
      refine ext fun k => ?_
      by_cases hk : k ∈ m.keys
      · exact h k hk
      · -- neither map has the key
        have hm : ¬ (m.lookup k).isSome := fun hsome => hk ((m.mem_keys k).mpr hsome)
        have hn : ¬ (n.lookup k).isSome := fun hsome =>
          hk (hkeys ▸ (n.mem_keys k).mpr hsome)
        rw [not_isSome_iff_eq_none] at hm hn
        rw [hm, hn]
    · rintro rfl
      exact ⟨rfl, fun _ _ => rfl⟩

/-! ### Ascending lists of keys -/

/-- Insert a key into an ascending list. -/
def insertKey (k : κ) : List κ → List κ
  | [] => [k]
  | x :: xs => if k < x then k :: x :: xs else if k = x then x :: xs else x :: insertKey k xs

theorem mem_insertKey {k j : κ} {l : List κ} : j ∈ insertKey k l ↔ j = k ∨ j ∈ l := by
  induction l with
  | nil => simp [insertKey]
  | cons x xs ih =>
    rw [insertKey]
    split
    · simp
    · split
      · next heq =>
        subst heq
        simp
      · rw [mem_cons, ih, mem_cons]
        exact or_left_comm

theorem sorted_insertKey {k : κ} {l : List κ} (h : l.Pairwise (· < ·)) :
    (insertKey k l).Pairwise (· < ·) := by
  induction l with
  | nil => simp [insertKey]
  | cons x xs ih =>
    rw [pairwise_cons] at h
    rw [insertKey]
    split
    · next hlt =>
      refine pairwise_cons.mpr ⟨?_, pairwise_cons.mpr h⟩
      -- what follows the new key follows the old head
      intro y hy
      rcases mem_cons.mp hy with rfl | hmem
      · exact hlt
      · exact lt_trans hlt (h.1 y hmem)
    · next hle =>
      split
      · exact pairwise_cons.mpr h
      · next hne =>
        refine pairwise_cons.mpr ⟨?_, ih h.2⟩
        intro y hy
        rcases mem_insertKey.mp hy with rfl | hmem
        · exact lt_of_le_of_ne (not_lt.mp hle) (Ne.symm hne)
        · exact h.1 y hmem

/-! ### Operations -/

def empty : FinMap κ α := ⟨fun _ => none, [], List.Pairwise.nil, by simp⟩

def insert (k : κ) (a : α) (m : FinMap κ α) : FinMap κ α where
  lookup := Function.update m.lookup k (some a)
  keys := insertKey k m.keys
  sorted := sorted_insertKey m.sorted
  mem_keys j := by
    rw [mem_insertKey, m.mem_keys, update_apply]
    split
    · next heq => simp [heq]
    · next hne => simp [hne]

def delete (k : κ) (m : FinMap κ α) : FinMap κ α where
  lookup := Function.update m.lookup k none
  keys := m.keys.filter (· ≠ k)
  sorted := m.sorted.filter _
  mem_keys j := by
    rw [mem_filter, m.mem_keys, update_apply]
    split
    · next heq => simp [heq]
    · next hne => simp [hne]

/-- Replace or delete the value of a key. -/
def alter (f : Option α → Option α) (k : κ) (m : FinMap κ α) : FinMap κ α :=
  match f (m.lookup k) with
  | none => m.delete k
  | some a => m.insert k a

/-- Change the value of a key, if it has one. -/
def adjust (f : α → α) (k : κ) (m : FinMap κ α) : FinMap κ α :=
  match m.lookup k with
  | none => m
  | some a => m.insert k (f a)

def map (f : α → β) (m : FinMap κ α) : FinMap κ β where
  lookup k := (m.lookup k).map f
  keys := m.keys
  sorted := m.sorted
  mem_keys k := by rw [m.mem_keys, isSome_map]

def mapWithKey (f : κ → α → β) (m : FinMap κ α) : FinMap κ β where
  lookup k := (m.lookup k).map (f k)
  keys := m.keys
  sorted := m.sorted
  mem_keys k := by rw [m.mem_keys, isSome_map]

/-- Keep the entries whose value has the property. -/
def filter (p : α → Bool) (m : FinMap κ α) : FinMap κ α where
  lookup k := (m.lookup k).filter p
  keys := m.keys.filter fun k => (m.lookup k).any p
  sorted := m.sorted.filter _
  mem_keys k := by
    rw [mem_filter, m.mem_keys]
    cases m.lookup k with
    | none => simp
    | some a => simp [Option.filter]

/-- The values of both maps, combined where both have one. -/
def unionWith (f : α → α → α) (m n : FinMap κ α) : FinMap κ α where
  lookup k := match m.lookup k, n.lookup k with
    | some a, some b => some (f a b)
    | some a, none => some a
    | none, b => b
  keys := n.keys.foldr insertKey m.keys
  sorted := by
    induction n.keys with
    | nil => exact m.sorted
    | cons k ks ih => exact sorted_insertKey ih
  mem_keys k := by
    have hmem : ∀ ks : List κ, k ∈ ks.foldr insertKey m.keys ↔ k ∈ ks ∨ k ∈ m.keys := by
      intro ks
      induction ks with
      | nil => simp
      | cons j js ih => rw [foldr_cons, mem_insertKey, ih, mem_cons, or_assoc]
    rw [hmem, n.mem_keys, m.mem_keys]
    cases m.lookup k <;> cases n.lookup k <;> simp

/-- Insert the entries of a list in turn. -/
def ofList (l : List (κ × α)) : FinMap κ α :=
  l.foldl (fun m entry => m.insert entry.1 entry.2) empty

/-- The entries in ascending order of their keys. -/
def toList (m : FinMap κ α) : List (κ × α) :=
  m.keys.filterMap fun k => (m.lookup k).map fun a => (k, a)

/-- The values in ascending order of their keys. -/
def elems (m : FinMap κ α) : List α := m.keys.filterMap m.lookup

/-- The greatest key. -/
def lastKey (m : FinMap κ α) : Option κ := m.keys.getLast?

/-- Fold over the entries in ascending order of their keys. -/
def foldlWithKey (f : β → κ → α → β) (init : β) (m : FinMap κ α) : β :=
  m.keys.foldl (fun acc k => match m.lookup k with
    | some a => f acc k a
    | none => acc) init

/-- The least key whose value has the property. -/
def lowest (p : α → Bool) (m : FinMap κ α) : Option κ := m.keys.find? fun k => (m.lookup k).any p

/-- The keys whose values have the property. -/
def keysWith (p : α → Bool) (m : FinMap κ α) : Finset κ :=
  (m.keys.filter fun k => (m.lookup k).any p).toFinset

/-! ### Values after an operation -/

variable {k j : κ} {a : α} {m : FinMap κ α}

@[simp] theorem lookup_empty : (empty : FinMap κ α).lookup k = none := rfl

theorem lookup_insert : (m.insert k a).lookup j = if j = k then some a else m.lookup j :=
  update_apply ..

@[simp] theorem lookup_insert_self : (m.insert k a).lookup k = some a := update_self ..

theorem lookup_insert_of_ne (h : j ≠ k) : (m.insert k a).lookup j = m.lookup j :=
  update_of_ne h ..

theorem lookup_delete : (m.delete k).lookup j = if j = k then none else m.lookup j :=
  update_apply ..

@[simp] theorem lookup_delete_self : (m.delete k).lookup k = none := update_self ..

theorem lookup_delete_of_ne (h : j ≠ k) : (m.delete k).lookup j = m.lookup j :=
  update_of_ne h ..

@[simp] theorem insert_insert {b : α} : (m.insert k a).insert k b = m.insert k b := by
  refine ext fun j => ?_
  simp only [lookup_insert]
  split <;> rfl

theorem length_insertKey {k : κ} {l : List κ} (h : k ∉ l) : (insertKey k l).length = l.length + 1 := by
  induction l with
  | nil => rfl
  | cons x xs ih =>
    rw [mem_cons, not_or] at h
    rw [insertKey]
    split
    · rfl
    · rw [if_neg h.1, length_cons, ih h.2, length_cons]

/-- A new key makes the map larger. -/
theorem length_keys_insert (h : m.lookup k = none) :
    (m.insert k a).keys.length = m.keys.length + 1 := by
  refine length_insertKey fun hmem => ?_
  rw [m.mem_keys, h] at hmem
  cases hmem

theorem lookup_adjust {f : α → α} :
    (m.adjust f k).lookup j = if j = k then (m.lookup k).map f else m.lookup j := by
  unfold adjust
  split
  · next hk =>
    split
    · next heq => rw [heq, hk, map_none]
    · rfl
  · next a hk => rw [lookup_insert, hk, map_some]

@[simp] theorem lookup_map (f : α → β) : (m.map f).lookup k = (m.lookup k).map f := rfl

@[simp] theorem lookup_mapWithKey (f : κ → α → β) :
    (m.mapWithKey f).lookup k = (m.lookup k).map (f k) := rfl

theorem lookup_filter_eq_some {p : α → Bool} :
    (m.filter p).lookup k = some a ↔ m.lookup k = some a ∧ p a = true :=
  filter_eq_some_iff

variable {l : List (κ × α)}

/-- The values that the entries of a list leave behind are those of the entries and the old ones. -/
theorem lookup_foldl_insert
    (h : (l.foldl (fun m entry => m.insert entry.1 entry.2) m).lookup k = some a) :
    (k, a) ∈ l ∨ m.lookup k = some a := by
  induction l generalizing m with
  | nil => exact .inr h
  | cons entry l ih =>
    rcases ih h with hmem | hm
    · exact .inl (mem_cons_of_mem _ hmem)
    · rw [lookup_insert] at hm
      split at hm
      · next hk =>
        cases hm
        exact .inl (hk ▸ mem_cons_self)
      · exact .inr hm

theorem mem_of_lookup_ofList (h : (ofList l).lookup k = some a) : (k, a) ∈ l := by
  rcases lookup_foldl_insert h with hmem | hm
  · exact hmem
  · cases hm

theorem lookup_foldl_insert_of_unique (hunique : ∀ b, (k, b) ∈ l → b = a)
    (h : (k, a) ∈ l ∨ m.lookup k = some a) :
    (l.foldl (fun m entry => m.insert entry.1 entry.2) m).lookup k = some a := by
  induction l generalizing m with
  | nil =>
    rcases h with hmem | hm
    · cases hmem
    · exact hm
  | cons entry l ih =>
    refine ih (fun b hb => hunique b (mem_cons_of_mem _ hb)) ?_
    show (k, a) ∈ l ∨ (m.insert entry.1 entry.2).lookup k = some a
    by_cases hk : k = entry.1
    · -- the head has the value, whatever was there before
      have hhead : entry.2 = a := hunique entry.2 (by rw [hk]; exact mem_cons_self)
      rw [← hk, hhead, lookup_insert_self]
      exact .inr rfl
    · rw [lookup_insert_of_ne hk]
      rcases h with hmem | hm
      · rcases mem_cons.mp hmem with heq | hmem
        · exact absurd (congrArg Prod.fst heq) hk
        · exact .inl hmem
      · exact .inr hm

theorem lookup_ofList_of_unique (hunique : ∀ b, (k, b) ∈ l → b = a) (h : (k, a) ∈ l) :
    (ofList l).lookup k = some a :=
  lookup_foldl_insert_of_unique hunique (.inl h)

theorem isSome_lookup_foldl_insert (h : (∃ b, (k, b) ∈ l) ∨ (m.lookup k).isSome) :
    ((l.foldl (fun m entry => m.insert entry.1 entry.2) m).lookup k).isSome := by
  induction l generalizing m with
  | nil =>
    rcases h with ⟨b, hb⟩ | h
    · cases hb
    · exact h
  | cons entry l ih =>
    refine ih ?_
    show (∃ b, (k, b) ∈ l) ∨ ((m.insert entry.1 entry.2).lookup k).isSome
    by_cases hk : k = entry.1
    · exact .inr (by rw [← hk, lookup_insert_self]; rfl)
    · rcases h with ⟨b, hb⟩ | h
      · rcases mem_cons.mp hb with rfl | hb
        · exact absurd rfl hk
        · exact .inl ⟨b, hb⟩
      · exact .inr (by rw [lookup_insert_of_ne hk]; exact h)

theorem lookup_ofList_eq_none_iff : (ofList l).lookup k = none ↔ ∀ b, (k, b) ∉ l := by
  constructor
  · intro h b hb
    have hsome : ((ofList l).lookup k).isSome := isSome_lookup_foldl_insert (.inl ⟨b, hb⟩)
    rw [h] at hsome
    cases hsome
  · intro h
    cases hk : (ofList l).lookup k with
    | none => rfl
    | some b => exact absurd (mem_of_lookup_ofList hk) (h b)

theorem mem_toList : (k, a) ∈ m.toList ↔ m.lookup k = some a := by
  rw [toList, mem_filterMap]
  constructor
  · rintro ⟨l, -, hl⟩
    obtain ⟨b, hb, heq⟩ := map_eq_some_iff.mp hl
    cases heq
    exact hb
  · intro h
    exact ⟨k, (m.mem_keys k).mpr (by rw [h]; rfl), by rw [h]; rfl⟩

theorem map_fst_toList (m : FinMap κ α) : m.toList.map Prod.fst = m.keys := by
  have hkeys : ∀ l : List κ, (∀ k ∈ l, (m.lookup k).isSome) →
      (l.filterMap fun k => (m.lookup k).map fun a => (k, a)).map Prod.fst = l := by
    intro l hl
    induction l with
    | nil => rfl
    | cons k l ih =>
      obtain ⟨a, ha⟩ := isSome_iff_exists.mp (hl k (.head l))
      rw [filterMap_cons_some (by rw [ha]; rfl), map_cons,
        ih fun k' hk' => hl k' (.tail k hk')]
  exact hkeys m.keys fun k hk => (m.mem_keys k).mp hk

/-- Folding over a map is folding over its entries. -/
theorem foldlWithKey_eq {β : Type*} (f : β → κ → α → β) (init : β) (m : FinMap κ α) :
    m.foldlWithKey f init = m.toList.foldl (fun acc entry => f acc entry.1 entry.2) init := by
  rw [foldlWithKey, toList, foldl_filterMap]
  congr 1
  funext acc k
  cases m.lookup k <;> rfl

theorem mem_elems : a ∈ m.elems ↔ ∃ k, m.lookup k = some a := by
  rw [elems, mem_filterMap]
  constructor
  · rintro ⟨k, -, hk⟩
    exact ⟨k, hk⟩
  · rintro ⟨k, hk⟩
    exact ⟨k, (m.mem_keys k).mpr (by rw [hk]; rfl), hk⟩

theorem mem_keysWith {p : α → Bool} :
    k ∈ m.keysWith p ↔ ∃ a, m.lookup k = some a ∧ p a = true := by
  rw [keysWith, List.mem_toFinset, mem_filter, m.mem_keys, Option.any_eq_true]
  constructor
  · exact fun h => h.2
  · rintro ⟨a, ha, hp⟩
    exact ⟨by rw [ha]; rfl, a, ha, hp⟩

theorem keysWith_insert {p : α → Bool} :
    (m.insert k a).keysWith p
      = if p a then Insert.insert k ((m.keysWith p).erase k) else (m.keysWith p).erase k := by
  ext j
  by_cases hj : j = k
  · subst hj
    cases hp : p a <;> simp [mem_keysWith, hp]
  · cases hp : p a <;> simp [mem_keysWith, lookup_insert_of_ne hj, hj]

theorem keysWith_delete {p : α → Bool} : (m.delete k).keysWith p = (m.keysWith p).erase k := by
  ext j
  by_cases hj : j = k
  · subst hj
    simp [mem_keysWith]
  · simp [mem_keysWith, lookup_delete_of_ne hj, hj]

theorem not_mem_keysWith_of_lookup_eq_none {p : α → Bool} (h : m.lookup k = none) :
    k ∉ m.keysWith p := by
  simp [mem_keysWith, h]

/-- What a search through an ascending list finds. -/
theorem find?_eq_some_iff_of_sorted {l : List κ} {p : κ → Bool} (h : l.Pairwise (· < ·)) :
    l.find? p = some k ↔ (k ∈ l ∧ p k = true) ∧ ∀ j ∈ l, p j = true → k ≤ j := by
  induction l with
  | nil => simp
  | cons x xs ih =>
    rw [pairwise_cons] at h
    rw [List.find?_cons]
    -- the head is the least key, so it is the answer if it has the property
    cases hx : p x with
    | true =>
      constructor
      · rintro ⟨⟩
        refine ⟨⟨mem_cons_self, hx⟩, fun j hj _ => ?_⟩
        rcases mem_cons.mp hj with rfl | hmem
        · exact le_refl _
        · exact le_of_lt (h.1 j hmem)
      · rintro ⟨⟨hmem, -⟩, hleast⟩
        rcases mem_cons.mp hmem with rfl | hmem
        · rfl
        · exact absurd (hleast x mem_cons_self hx) (not_le.mpr (h.1 k hmem))
    | false =>
      simp only [ih h.2, mem_cons]
      constructor
      · rintro ⟨⟨hmem, hk⟩, hleast⟩
        refine ⟨⟨.inr hmem, hk⟩, ?_⟩
        rintro j (rfl | hj) hp
        · rw [hx] at hp
          cases hp
        · exact hleast j hj hp
      · rintro ⟨⟨rfl | hmem, hk⟩, hleast⟩
        · rw [hx] at hk
          cases hk
        · exact ⟨⟨hmem, hk⟩, fun j hj => hleast j (.inr hj)⟩

theorem lowest_eq_some_iff {p : α → Bool} :
    m.lowest p = some k ↔ k ∈ m.keysWith p ∧ ∀ j ∈ m.keysWith p, k ≤ j := by
  have hmem : ∀ j, j ∈ m.keysWith p ↔ j ∈ m.keys ∧ (m.lookup j).any p = true := by
    intro j
    rw [keysWith, List.mem_toFinset, mem_filter]
  rw [lowest, find?_eq_some_iff_of_sorted m.sorted, hmem]
  refine and_congr_right fun _ => forall_congr' fun j => ?_
  rw [hmem, and_imp]

/-- The least element of a finite set. -/
def least (s : Finset κ) : Option κ := if h : s.Nonempty then some (s.min' h) else none

theorem least_eq_some_iff {s : Finset κ} : least s = some k ↔ k ∈ s ∧ ∀ j ∈ s, k ≤ j := by
  -- a nonempty finite set has a least element
  unfold least
  split
  · next hne =>
    rw [some.injEq]
    constructor
    · rintro rfl
      exact ⟨s.min'_mem hne, fun j hj => s.min'_le j hj⟩
    · rintro ⟨hk, hleast⟩
      exact le_antisymm (s.min'_le k hk) (hleast _ (s.min'_mem hne))
  · next hempty =>
    simp only [reduceCtorEq, false_iff, not_and]
    exact fun hk => absurd ⟨k, hk⟩ hempty

/-- **A search for the least key is the least element of the set of keys.** -/
theorem lowest_eq_least (p : α → Bool) (m : FinMap κ α) : m.lowest p = least (m.keysWith p) := by
  ext k
  rw [lowest_eq_some_iff, least_eq_some_iff]

end FinMap
