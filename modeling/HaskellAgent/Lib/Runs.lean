import Mathlib.Data.List.Infix
import Mathlib.Data.List.Pairwise
import Mathlib.Data.List.Sort

/-!
# Contiguous runs of an ascending list

A list whose elements ascend in some key, and the runs of neighbours in it.

## Main definitions

* `List.Ascending key l` — the keys of `l` are strictly ascending.
* `List.firstByKey key l` — `l` without the elements whose key came before.

## Main results

* `infix_of_convex` — **an ascending list that skips no element of `l` is a run of `l`**.
* `ascending_firstByKey_insertionSort` — sorted and made unique, a list ascends.
-/

namespace List

variable {α κ : Type*} [LinearOrder κ] {key : α → κ} {l m : List α}

/-- The keys are strictly ascending. -/
def Ascending (key : α → κ) (l : List α) : Prop := l.Pairwise fun a b => key a < key b

section

variable (hl : Ascending key l)
include hl

theorem Ascending.sublist (h : m <+ l) : Ascending key m :=
  Pairwise.sublist h hl

theorem Ascending.eq_of_key {a b : α} (ha : a ∈ l) (hb : b ∈ l)
    (h : key a = key b) : a = b := by
  by_contra hne
  have hl' : l.Pairwise fun a b => key a ≠ key b := hl.imp fun hlt => ne_of_lt hlt
  have : Std.Symm fun a b => key a ≠ key b := ⟨fun a b => Ne.symm⟩
  exact hl'.forall ha hb hne h

theorem Ascending.nodup : l.Nodup :=
  hl.imp fun hlt heq => absurd (congrArg key heq) (ne_of_lt hlt)

/-- Ascending lists with the same elements are equal. -/
theorem Ascending.eq_of_mem_iff (hm : Ascending key m)
    (h : ∀ a, a ∈ l ↔ a ∈ m) : l = m :=
  have hperm : l ~ m := (perm_ext_iff_of_nodup hl.nodup hm.nodup).mpr h
  hperm.eq_of_pairwise (fun _ _ _ _ hab hba => absurd hab (lt_asymm hba)) hl hm

theorem Ascending.append {a : α} (h : ∀ b ∈ l, key b < key a) :
    Ascending key (l ++ [a]) :=
  pairwise_append.mpr ⟨hl, pairwise_singleton _ _, fun b hb c hc => by
    rw [mem_singleton] at hc
    exact hc ▸ h b hb⟩

/-- The elements of an ascending list between two keys are a run. -/
theorem Ascending.infix_filter {p : α → Bool}
    (hp : ∀ a ∈ l, ∀ b ∈ l, ∀ d ∈ l, p a → p b → key a < key d → key d < key b → p d) :
    l.filter p <:+: l := by
  induction l with
  | nil => exact infix_rfl
  | cons a l ih =>
    rw [Ascending, pairwise_cons] at hl
    have htail := ih hl.2 fun x hx y hy d hd =>
      hp x (mem_cons_of_mem _ hx) y (mem_cons_of_mem _ hy) d (mem_cons_of_mem _ hd)
    cases ha : p a with
    | false =>
      rw [filter_cons_of_neg (by rw [ha]; exact Bool.false_ne_true)]
      exact infix_cons htail
    | true =>
      -- the run begins here: behind it stands all that is kept, up to the first one left out
      rw [filter_cons_of_pos ha]
      suffices l.filter p <+: l from ((prefix_cons_inj a).mpr this).isInfix
      clear htail ih
      induction l with
      | nil => exact prefix_rfl
      | cons b l ih =>
        cases hb : p b with
        | true =>
          rw [filter_cons_of_pos hb]
          refine (prefix_cons_inj b).mpr (ih ⟨fun c hc => hl.1 c (mem_cons_of_mem _ hc),
            (pairwise_cons.mp hl.2).2⟩ fun x hx y hy d hd => ?_)
          have hmem : ∀ {c}, c ∈ a :: l → c ∈ a :: b :: l := fun hc =>
            (mem_cons.mp hc).elim (fun h => h ▸ mem_cons_self)
              fun h => mem_cons_of_mem _ (mem_cons_of_mem _ h)
          exact hp x (hmem hx) y (hmem hy) d (hmem hd)
        | false =>
          have hnone : (b :: l).filter p = [] := by
            refine filter_eq_nil_iff.mpr fun c hc hpc => ?_
            rcases mem_cons.mp hc with rfl | hc
            · rw [hb] at hpc
              cases hpc
            · have hgap := hp a mem_cons_self c (mem_cons_of_mem _ (mem_cons_of_mem _ hc)) b
                (mem_cons_of_mem _ mem_cons_self) ha hpc (hl.1 b mem_cons_self)
                ((pairwise_cons.mp hl.2).1 c hc)
              rw [hb] at hgap
              cases hgap
          rw [hnone]
          exact nil_prefix

end

/-- **An ascending list that skips no element of `l` is a run of `l`.** -/
theorem infix_of_convex [DecidableEq α] (hl : Ascending key l) (hm : Ascending key m) (hsub : m ⊆ l)
    (hconvex : ∀ a ∈ m, ∀ b ∈ m, ∀ d ∈ l, key a < key d → key d < key b → d ∈ m) : m <:+: l := by
  have heq : m = l.filter (· ∈ m) := hm.eq_of_mem_iff (hl.sublist filter_sublist) fun a => by
    rw [mem_filter, decide_eq_true_eq]
    exact ⟨fun h => ⟨hsub h, h⟩, fun h => h.2⟩
  rw [heq]
  refine hl.infix_filter fun a _ b _ d hd ha hb had hdb => ?_
  rw [decide_eq_true_eq] at ha hb ⊢
  exact hconvex a ha b hb d hd had hdb

/-- A run skips no element. -/
theorem mem_of_isInfix (hl : Ascending key l) (h : m <:+: l) {a b d : α} (ha : a ∈ m) (hb : b ∈ m)
    (hd : d ∈ l) (had : key a < key d) (hdb : key d < key b) : d ∈ m := by
  obtain ⟨pre, post, rfl⟩ := h
  rw [Ascending, pairwise_append, pairwise_append] at hl
  obtain ⟨⟨-, -, hpre⟩, -, hpost⟩ := hl
  rcases mem_append.mp hd with hd | hd
  · rcases mem_append.mp hd with hd | hd
    · exact absurd had (lt_asymm (hpre d hd a ha))
    · exact hd
  · exact absurd hdb (lt_asymm (hpost b (mem_append_right _ hb) d hd))

/-! ### Removing repeated keys -/

/-- The elements whose key is not in `seen` and did not come before. -/
@[grind =] def firstByKeyFrom (key : α → κ) : List κ → List α → List α
  | _, [] => []
  | seen, a :: l =>
    if key a ∈ seen then firstByKeyFrom key seen l else a :: firstByKeyFrom key (key a :: seen) l

def firstByKey (key : α → κ) (l : List α) : List α := firstByKeyFrom key [] l

variable {seen : List κ}

theorem firstByKeyFrom_sublist : firstByKeyFrom key seen l <+ l := by
  induction l generalizing seen with
  | nil => exact Sublist.refl _
  | cons a l ih =>
    unfold firstByKeyFrom
    split
    · exact ih.cons _
    · exact ih.cons_cons _

theorem not_mem_of_mem_firstByKeyFrom {a : α}
    (h : a ∈ firstByKeyFrom key seen l) : key a ∉ seen := by
  induction l generalizing seen with
  | nil => cases h
  | cons b l ih =>
    unfold firstByKeyFrom at h
    split at h
    · exact ih h
    · next hb =>
      rcases mem_cons.mp h with rfl | h
      · exact hb
      · exact fun hmem => ih h (mem_cons_of_mem _ hmem)

theorem exists_mem_firstByKeyFrom {a : α} (h : a ∈ l) (hseen : key a ∉ seen) :
    ∃ b ∈ firstByKeyFrom key seen l, key b = key a := by
  induction l generalizing seen with
  | nil => cases h
  | cons b l ih =>
    unfold firstByKeyFrom
    by_cases hb : key b ∈ seen
    · rw [if_pos hb]
      rcases mem_cons.mp h with rfl | h
      · exact absurd hb hseen
      · exact ih h hseen
    · rw [if_neg hb]
      by_cases hab : key a = key b
      · exact ⟨b, mem_cons_self, hab.symm⟩
      · rcases mem_cons.mp h with rfl | h
        · exact absurd rfl hab
        · obtain ⟨c, hc, hkey⟩ := ih h fun hmem : key a ∈ key b :: seen =>
            (mem_cons.mp hmem).elim hab hseen
          exact ⟨c, mem_cons_of_mem _ hc, hkey⟩

/-- Of a list in order, what is kept ascends. -/
theorem ascending_firstByKeyFrom (h : l.Pairwise fun a b => key a ≤ key b) :
    Ascending key (firstByKeyFrom key seen l) := by
  induction l generalizing seen with
  | nil => exact Pairwise.nil
  | cons a l ih =>
    rw [pairwise_cons] at h
    unfold firstByKeyFrom
    split
    · exact ih h.2
    · refine pairwise_cons.mpr ⟨fun b hb => ?_, ih h.2⟩
      have hne : key b ≠ key a := fun heq =>
        not_mem_of_mem_firstByKeyFrom hb (heq ▸ mem_cons_self)
      exact lt_of_le_of_ne (h.1 b (firstByKeyFrom_sublist.subset hb)) hne.symm

/-- **Sorted and made unique, a list ascends.** -/
theorem ascending_firstByKey_insertionSort :
    Ascending key (firstByKey key (l.insertionSort fun a b => key a ≤ key b)) := by
  have : Std.Total fun a b : α => key a ≤ key b := ⟨fun a b => le_total _ _⟩
  have : IsTrans α fun a b => key a ≤ key b := ⟨fun a b c => le_trans⟩
  exact ascending_firstByKeyFrom (pairwise_insertionSort _ l)

theorem mem_firstByKey (hunique : ∀ a ∈ l, ∀ b ∈ l, key a = key b → a = b) {a : α} :
    a ∈ firstByKey key l ↔ a ∈ l := by
  constructor
  · exact fun h => firstByKeyFrom_sublist.subset h
  · intro h
    obtain ⟨b, hb, hkey⟩ := exists_mem_firstByKeyFrom h (show key a ∉ [] from not_mem_nil)
    exact hunique b (firstByKeyFrom_sublist.subset hb) a h hkey ▸ hb

/-- An ascending list is taken apart at a key. -/
theorem Ascending.filter_append_filter (hl : Ascending key l) (k : κ) :
    (l.filter fun a => decide (key a ≤ k)) ++ l.filter (fun a => decide (k < key a)) = l := by
  induction l with
  | nil => rfl
  | cons a l ih =>
    rw [Ascending, pairwise_cons] at hl
    by_cases ha : key a ≤ k
    · have hnot : ¬ k < key a := not_lt.mpr ha
      simp only [filter_cons, ha, hnot, decide_true, decide_false, if_true, Bool.false_eq_true,
        if_false, cons_append, ih hl.2]
    · -- everything behind the first key above is above too
      have habove : ∀ b ∈ l, k < key b := fun b hb => lt_trans (not_le.mp ha) (hl.1 b hb)
      have hlow : (l.filter fun a => decide (key a ≤ k)) = [] :=
        filter_eq_nil_iff.mpr fun b hb => by simpa using habove b hb
      have hhigh : l.filter (fun a => decide (k < key a)) = l :=
        filter_eq_self.mpr fun b hb => decide_eq_true (habove b hb)
      simp only [filter_cons, ha, not_le.mp ha, decide_true, decide_false, if_true,
        Bool.false_eq_true, if_false, hlow, hhigh, nil_append]

end List
