import Mathlib.Data.List.Sort

/-!
# Ascending lists read from behind a key

## Main definitions

* `rotated` — what is behind a key, and then the others.

## Main results

* `rotated_of_split` — **behind the last one of a beginning comes the rest, and then the beginning**.
* `idxOf_append_swap`, `idxOf_filter_le` — how far away an element is then, and after removals.
-/

namespace List

variable {κ : Type*} [LinearOrder κ]

/-- The list from behind a key on. -/
def rotated : Option κ → List κ → List κ
  | none, l => l
  | some k, l => l.filter (k < ·) ++ l.filter (· ≤ k)

theorem rotated_perm (cursor : Option κ) (l : List κ) : rotated cursor l ~ l := by
  cases cursor with
  | none => exact .refl _
  | some k =>
    refine .trans (.append_left _ (.of_eq ?_)) (filter_append_perm (k < ·) l)
    exact filter_congr fun a _ => by simp [← not_lt]

theorem rotated_filter (cursor : Option κ) (p : κ → Bool) (l : List κ) :
    rotated cursor (l.filter p) = (rotated cursor l).filter p := by
  cases cursor with
  | none => rfl
  | some k => simp only [rotated, filter_append, filter_filter, Bool.and_comm]

variable {l u w : List κ} {k : κ} {cursor : Option κ}

/-- What is not behind a bound comes first. -/
theorem filter_le_append_filter_lt (h : l.Pairwise (· < ·)) :
    l.filter (· ≤ k) ++ l.filter (k < ·) = l := by
  refine Pairwise.eq_of_mem_iff (pairwise_append.mpr ⟨h.filter _, h.filter _, ?_⟩) h fun a => ?_
  · intro a ha b hb
    simp only [mem_filter, decide_eq_true_eq] at ha hb
    exact ha.2.trans_lt hb.2
  · simp [← and_or_left, le_or_gt]

/-- A bound that is an element is the last one that is not behind it. -/
theorem filter_lt_append (h : l.Pairwise (· < ·)) :
    l.filter (· < k) ++ (if k ∈ l then [k] else []) = l.filter (· ≤ k) := by
  refine Pairwise.eq_of_mem_iff (pairwise_append.mpr ⟨h.filter _, ?_, ?_⟩) (h.filter _)
    fun a => ?_
  · split <;> simp
  · intro a ha b hb
    simp only [mem_filter, decide_eq_true_eq, mem_ite_nil_right, mem_singleton] at ha hb
    exact hb.2 ▸ ha.2
  · simp only [mem_append, mem_filter, decide_eq_true_eq, mem_ite_nil_right, mem_singleton,
      le_iff_lt_or_eq]
    constructor
    · rintro (⟨ha, hlt⟩ | ⟨hk, rfl⟩)
      · exact ⟨ha, .inl hlt⟩
      · exact ⟨hk, .inr rfl⟩
    · rintro ⟨ha, hlt | rfl⟩
      · exact .inl ⟨ha, hlt⟩
      · exact .inr ⟨ha, rfl⟩

theorem rotated_some_append (h : (u ++ w).Pairwise (· < ·)) (hlast : u.getLast? = some k) :
    rotated (some k) (u ++ w) = w ++ u := by
  obtain ⟨hu, -, hw⟩ := pairwise_append.mp h
  have hlt : ∀ a ∈ w, k < a := hw k (mem_of_getLast? hlast)
  have hle : ∀ a ∈ u, a ≤ k := by
    obtain ⟨before, rfl⟩ := getLast?_eq_some_iff.mp hlast
    intro a ha
    rcases mem_append.mp ha with ha | ha
    · exact ((pairwise_append.mp hu).2.2 a ha k (mem_singleton.mpr rfl)).le
    · exact (mem_singleton.mp ha).le
  have hfirst : u.filter (k < ·) = [] := filter_eq_nil_iff.mpr (by simpa using hle)
  have hsecond : w.filter (· ≤ k) = [] := filter_eq_nil_iff.mpr (by simpa using hlt)
  rw [rotated, filter_append, filter_append, hfirst, hsecond, nil_append, append_nil,
    filter_eq_self.mpr (by simpa using hlt), filter_eq_self.mpr (by simpa using hle)]

/-- **Behind the last one of a beginning comes the rest, and then the beginning.** -/
theorem rotated_of_split (hl : l.Pairwise (· < ·)) {first rest : List κ}
    (h : rotated cursor l = first ++ rest) (hlast : first.getLast? = some k) :
    rotated (some k) l = rest ++ first := by
  -- the order is that of the list, cut at one place
  obtain ⟨x, y, rfl, hrot⟩ : ∃ x y, l = x ++ y ∧ rotated cursor l = y ++ x := by
    cases cursor with
    | none => exact ⟨[], l, rfl, (append_nil l).symm⟩
    | some k => exact ⟨_, _, (filter_le_append_filter_lt hl).symm, rfl⟩
  rw [hrot] at h
  rcases append_eq_append_iff.mp h with ⟨z, rfl, rfl⟩ | ⟨z, rfl, rfl⟩
  · -- the beginning goes on where the list starts
    rcases eq_nil_or_concat' z with rfl | ⟨z, c, rfl⟩
    · rw [append_nil] at hlast
      have hall := rotated_some_append (u := rest ++ y) (w := []) (by simpa using hl)
        (by rw [getLast?_append, hlast]; rfl)
      simpa using hall
    · have hc : (z ++ [c]).getLast? = some k := by simpa using hlast
      rw [append_assoc] at hl
      rw [append_assoc, rotated_some_append hl hc, append_assoc]
  · rw [← append_assoc] at hl
    have hk : (x ++ first).getLast? = some k := by rw [getLast?_append, hlast]; rfl
    rw [← append_assoc, rotated_some_append hl hk, append_assoc]

/-- An element of the rest moves up by the length of the beginning. -/
theorem idxOf_append_swap {first rest : List κ} {a : κ} (hfirst : a ∉ first) (hrest : a ∈ rest) :
    (first ++ rest).idxOf a = (rest ++ first).idxOf a + first.length := by
  rw [idxOf_append_of_notMem hfirst, idxOf_append_of_mem hrest, Nat.add_comm]

theorem idxOf_filter_le {p : κ → Bool} {a : κ} (ha : p a = true) :
    (l.filter p).idxOf a ≤ l.idxOf a := by
  induction l with
  | nil => rfl
  | cons b l ih =>
    by_cases hb : b = a
    · subst hb
      rw [filter_cons_of_pos ha, idxOf_cons_self, idxOf_cons_self]
    · rw [idxOf_cons_ne _ hb]
      cases hp : p b with
      | true =>
        rw [filter_cons_of_pos hp, idxOf_cons_ne _ hb]
        omega
      | false =>
        rw [filter_cons_of_neg (by simp [hp])]
        omega

end List
