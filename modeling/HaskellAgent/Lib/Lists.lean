import Mathlib.Data.List.Forall2

/-!
# Lists that change at one place

Lemmas about lists after an update, about logs that grow at their end, and about lists that are
related element by element.

## Main results

* `getElem?_set_cases` — an entry of an updated list is the new one or an old one.
* `concat_eq_append_cons` — where an entry of a grown log stands.
* `prefix_append_cases` — where a prefix of two lists ends.
* `forall₂_concat`, `exists_of_forall₂_concat` — related lists, taken apart at their end.
* `exists_of_forall₂_left`, `exists_of_forall₂_right` — every entry has a partner.
-/

namespace List

variable {α β : Type*}

/-- An entry of an updated list is the new one or an old one. -/
theorem getElem?_set_cases {l : List α} {i j : ℕ} {new a : α} (h : (l.set i new)[j]? = some a) :
    i ≠ j ∧ l[j]? = some a ∨ i = j ∧ a = new := by
  rw [getElem?_set] at h
  split at h
  · next hj =>
    split at h
    · exact .inr ⟨hj, (Option.some.inj h).symm⟩
    · cases h
  · next hj => exact .inl ⟨hj, h⟩

/-- An entry of a list with a new last element is the new one or an old one. -/
theorem getElem?_concat_cases {l : List α} {j : ℕ} {new a : α}
    (h : (l ++ [new])[j]? = some a) : l[j]? = some a ∨ j = l.length ∧ a = new := by
  rw [getElem?_append] at h
  split at h
  · exact .inl h
  · next hge =>
    obtain ⟨hlt, heq⟩ := getElem?_eq_some_iff.mp h
    rw [length_singleton] at hlt
    have hmem := mem_of_getElem? h
    rw [mem_singleton] at hmem
    exact .inr ⟨by omega, hmem⟩

/-- A prefix of two lists is one of the first, or has all of it. -/
theorem prefix_append_cases {l m p : List α} (h : p <+: l ++ m) :
    p <+: l ∨ ∃ r, p = l ++ r ∧ r <+: m := by
  rcases prefix_or_prefix_of_prefix h (prefix_append l m) with hp | ⟨r, rfl⟩
  · exact .inl hp
  · exact .inr ⟨r, rfl, (prefix_append_right_inj l).mp h⟩

/-- Where an entry of a grown log stands. -/
theorem concat_eq_append_cons {l pre post : List α} {new a : α}
    (h : l ++ [new] = pre ++ a :: post) :
    (∃ post', post = post' ++ [new] ∧ l = pre ++ a :: post') ∨
      post = [] ∧ a = new ∧ pre = l := by
  rcases eq_nil_or_concat post with rfl | ⟨post', last, rfl⟩
  · obtain ⟨hpre, hnew⟩ := append_inj' h rfl
    exact .inr ⟨rfl, (cons.inj hnew).1.symm, hpre.symm⟩
  · rw [concat_eq_append, ← cons_append, ← append_assoc] at h
    obtain ⟨hpre, hnew⟩ := append_inj' h rfl
    exact .inl ⟨post', by rw [(cons.inj hnew).1, concat_eq_append], hpre⟩

/-! ### Related lists -/

variable {R S : α → β → Prop} {l : List α} {m : List β}

theorem forall₂_concat (h : Forall₂ R l m) {a : α} {b : β} (hab : R a b) :
    Forall₂ R (l ++ [a]) (m ++ [b]) :=
  rel_append h (.cons hab .nil)

theorem forall₂_imp_of_mem (h : Forall₂ R l m) (himp : ∀ a, ∀ b ∈ m, R a b → S a b) :
    Forall₂ S l m := by
  induction h with
  | nil => exact .nil
  | cons hab _ ih =>
    refine .cons (himp _ _ mem_cons_self hab) (ih ?_)
    exact fun a b hb => himp a b (mem_cons_of_mem _ hb)

theorem exists_of_forall₂_concat {b : β} (h : Forall₂ R l (m ++ [b])) :
    ∃ l' a, l = l' ++ [a] ∧ Forall₂ R l' m ∧ R a b := by
  induction m generalizing l with
  | nil =>
    obtain ⟨a, l', hab, hnil, rfl⟩ := forall₂_cons_right_iff.mp h
    rw [forall₂_nil_right_iff] at hnil
    exact ⟨[], a, by rw [hnil]; rfl, .nil, hab⟩
  | cons c m ih =>
    obtain ⟨a, l', hac, hrest, rfl⟩ := forall₂_cons_right_iff.mp h
    obtain ⟨l'', d, rfl, hl, hd⟩ := ih hrest
    exact ⟨a :: l'', d, rfl, .cons hac hl, hd⟩

/-- An entry of the left list has a partner. -/
theorem exists_of_forall₂_left (h : Forall₂ R l m) {a : α} (ha : a ∈ l) : ∃ b ∈ m, R a b := by
  induction h with
  | nil => cases ha
  | @cons a' b l m hab _ ih =>
    rcases mem_cons.mp ha with rfl | ha
    · exact ⟨b, mem_cons_self, hab⟩
    · obtain ⟨b', hb', hab'⟩ := ih ha
      exact ⟨b', mem_cons_of_mem _ hb', hab'⟩

/-- So has an entry of the right one. -/
theorem exists_of_forall₂_right (h : Forall₂ R l m) {b : β} (hb : b ∈ m) : ∃ a ∈ l, R a b :=
  exists_of_forall₂_left h.flip hb

end List
