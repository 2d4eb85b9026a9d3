import HaskellAgent.Lib.FinMap

/-!
# The first and the last entry of a finite map, and changes of one entry

## Main definitions

* `lookupMin`, `lookupMax` — the entries of the least and of the greatest key.

## Main results

* `lookupMin_eq_some`, `lookupMax_eq_some` — **the entry is one of the map, and its key is a bound**.
* `lookup_alter` — the values after a change of one entry.
-/

open List

namespace FinMap

variable {κ α : Type*} [LinearOrder κ] {m : FinMap κ α} {k : κ} {a : α}

/-- The entry of the least key. -/
def lookupMin (m : FinMap κ α) : Option (κ × α) :=
  m.keys.head?.bind fun k => (m.lookup k).map fun a => (k, a)

/-- The entry of the greatest key. -/
def lookupMax (m : FinMap κ α) : Option (κ × α) :=
  m.keys.getLast?.bind fun k => (m.lookup k).map fun a => (k, a)

theorem entry_eq_some {o : Option κ} :
    (o.bind fun k => (m.lookup k).map fun a => (k, a)) = some (k, a) ↔
      o = some k ∧ m.lookup k = some a := by
  rw [Option.bind_eq_some_iff]
  constructor
  · rintro ⟨j, hj, hentry⟩
    obtain ⟨b, hb, heq⟩ := Option.map_eq_some_iff.mp hentry
    cases heq
    exact ⟨hj, hb⟩
  · rintro ⟨ho, hlookup⟩
    exact ⟨k, ho, by rw [hlookup]; rfl⟩

theorem lookupMin_eq_some (h : m.lookupMin = some (k, a)) :
    m.lookup k = some a ∧ ∀ j, (m.lookup j).isSome → k ≤ j := by
  obtain ⟨hhead, hlookup⟩ := entry_eq_some.mp h
  refine ⟨hlookup, fun j hj => ?_⟩
  obtain ⟨rest, hkeys⟩ := List.head?_eq_some_iff.mp hhead
  have hmem := (m.mem_keys j).mpr hj
  have hsorted := m.sorted
  rw [hkeys] at hmem hsorted
  rcases mem_cons.mp hmem with rfl | hin
  · exact le_rfl
  · exact ((pairwise_cons.mp hsorted).1 j hin).le

theorem lookupMax_eq_some (h : m.lookupMax = some (k, a)) :
    m.lookup k = some a ∧ ∀ j, (m.lookup j).isSome → j ≤ k := by
  obtain ⟨hlast, hlookup⟩ := entry_eq_some.mp h
  refine ⟨hlookup, fun j hj => ?_⟩
  obtain ⟨before, hkeys⟩ := List.getLast?_eq_some_iff.mp hlast
  have hmem := (m.mem_keys j).mpr hj
  have hsorted := m.sorted
  rw [hkeys] at hmem hsorted
  rcases mem_append.mp hmem with hin | hin
  · exact ((pairwise_append.mp hsorted).2.2 j hin k (mem_singleton.mpr rfl)).le
  · exact (mem_singleton.mp hin).le

theorem lookup_alter {f : Option α → Option α} {j : κ} :
    (m.alter f k).lookup j = if j = k then f (m.lookup k) else m.lookup j := by
  unfold alter
  cases hf : f (m.lookup k) with
  | none => rw [lookup_delete]
  | some a => rw [lookup_insert]

/-- A map without keys has no values. -/
theorem lookup_eq_none_of_keys (h : m.keys = []) : m.lookup k = none := by
  by_contra hne
  have hmem := (m.mem_keys k).mpr (Option.ne_none_iff_isSome.mp hne)
  rw [h] at hmem
  cases hmem

end FinMap
