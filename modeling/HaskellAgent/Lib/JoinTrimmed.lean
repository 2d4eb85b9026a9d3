import Mathlib.Data.List.DropRight
import Mathlib.Data.List.Infix

/-!
# Joining lists that are trimmed

The elements with a property are removed from both ends of a list.  What is left of several lists,
where something is left, is joined with a separator; joining one more list to what was joined is the
same as joining all of them.

## Main definitions

* `trim`, `joinTrimmed` — a list without the ends that have the property, and lists joined.

## Main results

* `trim_joinTrimmed` — **what was joined is trimmed**.
* `joinTrimmed_concat` — **one list after the other is joined to what was joined before**.
-/

namespace List

variable {α : Type*} {p : α → Bool} {separator l : List α} {ls : List (List α)}

/-- The list without what has the property at its ends. -/
def trim (p : α → Bool) (l : List α) : List α := (l.dropWhile p).rdropWhile p

/-- What is left of the lists, with the separator between. -/
def joinTrimmed (p : α → Bool) (separator : List α) (ls : List (List α)) : List α :=
  separator.intercalate ((ls.map (trim p)).filter fun l => !l.isEmpty)

/-- Neither end has the property. -/
def Trimmed (p : α → Bool) (l : List α) : Prop :=
  (∀ a ∈ l.head?, p a = false) ∧ ∀ a ∈ l.getLast?, p a = false

theorem trimmed_trim : Trimmed p (l.trim p) := by
  constructor
  · intro a ha
    have hhead : (l.dropWhile p).head? = some a := by
      obtain ⟨rest, hrest⟩ := rdropWhile_prefix p (l := l.dropWhile p)
      obtain ⟨tail, htail⟩ := head?_eq_some_iff.mp (Option.mem_def.mp ha)
      rw [trim] at htail
      rw [← hrest, htail]
      rfl
    have hnot := head?_dropWhile_not p l
    rw [hhead] at hnot
    simpa using hnot
  · intro a ha
    have hne : l.trim p ≠ [] := by
      intro hnil
      rw [hnil] at ha
      cases ha
    have hlast := rdropWhile_last_not p (l := l.dropWhile p) hne
    rw [Option.mem_def, getLast?_eq_some_getLast hne, Option.some.injEq] at ha
    subst ha
    exact Bool.not_eq_true _ ▸ hlast

theorem Trimmed.trim_eq (h : Trimmed p l) : l.trim p = l := by
  have hdrop : l.dropWhile p = l := by
    cases l with
    | nil => rfl
    | cons a l => exact dropWhile_cons_of_neg (by simp [h.1 a rfl])
  rw [trim, hdrop]
  rcases eq_or_ne l [] with rfl | hne
  · rfl
  · refine rdropWhile_eq_self_iff.mpr fun _ => ?_
    have hlast := h.2 (l.getLast hne) (getLast?_eq_some_getLast hne)
    simp [hlast]

theorem intercalate_concat (hne : ls ≠ []) :
    separator.intercalate (ls ++ [l]) = separator.intercalate ls ++ separator ++ l := by
  induction ls with
  | nil => exact absurd rfl hne
  | cons a ls ih =>
    cases ls with
    | nil => simp [intercalate, intersperse]
    | cons b ls =>
      have hstep := ih (by simp)
      simp only [intercalate, cons_append, intersperse_cons_cons, flatten_cons] at hstep ⊢
      rw [hstep]
      simp

theorem intercalate_eq_nil_iff (h : ∀ l ∈ ls, l ≠ []) : separator.intercalate ls = [] ↔ ls = [] := by
  cases ls with
  | nil => simp [intercalate]
  | cons a ls =>
    have ha := h a (.head _)
    cases ls with
    | nil | cons b ls => simp [intercalate, ha]

/-- Lists that are trimmed and not empty are trimmed when they are joined. -/
theorem trimmed_intercalate (h : ∀ l ∈ ls, l ≠ [] ∧ Trimmed p l) :
    Trimmed p (separator.intercalate ls) := by
  constructor
  · cases ls with
    | nil => simp [intercalate]
    | cons a ls =>
      obtain ⟨hne, htrimmed⟩ := h a (.head _)
      obtain ⟨first, rest, rfl⟩ := exists_cons_of_ne_nil hne
      intro c hc
      have hfirst : c = first := by
        cases ls with
        | nil | cons b ls => simpa [intercalate, eq_comm] using hc
      exact htrimmed.1 c (by rw [hfirst]; rfl)
  · rcases eq_nil_or_concat' ls with rfl | ⟨before, last, rfl⟩
    · simp [intercalate]
    · obtain ⟨hne, htrimmed⟩ := h last (by simp)
      intro c hc
      refine htrimmed.2 c ?_
      rcases eq_or_ne before [] with rfl | hbefore
      · simpa [intercalate] using hc
      · rw [intercalate_concat hbefore, getLast?_append_of_ne_nil _ hne] at hc
        exact hc

theorem mem_filter_trim (h : l ∈ (ls.map (trim p)).filter fun l => !l.isEmpty) :
    l ≠ [] ∧ Trimmed p l := by
  obtain ⟨hmem, hne⟩ := mem_filter.mp h
  obtain ⟨raw, -, rfl⟩ := mem_map.mp hmem
  exact ⟨by simpa using hne, trimmed_trim⟩

/-- **What was joined is trimmed.** -/
theorem trim_joinTrimmed : (joinTrimmed p separator ls).trim p = joinTrimmed p separator ls :=
  (trimmed_intercalate fun _ => mem_filter_trim).trim_eq

/-- **One list after the other is joined to what was joined before.** -/
theorem joinTrimmed_concat :
    joinTrimmed p separator (ls ++ [l]) = separator.intercalate
      ([joinTrimmed p separator ls, l.trim p].filter fun l => !l.isEmpty) := by
  rw [joinTrimmed, map_append, filter_append]
  have hnil : joinTrimmed p separator ls = [] ↔
      ((ls.map (trim p)).filter fun l => !l.isEmpty) = [] :=
    intercalate_eq_nil_iff fun l hl => (mem_filter_trim hl).1
  rcases eq_or_ne (l.trim p) [] with hl | hl
  · rcases eq_or_ne (joinTrimmed p separator ls) [] with hls | hls
    · simp [hl, hls, hnil.mp hls]
    · have hsingle : (([joinTrimmed p separator ls, l.trim p]).filter fun l => !l.isEmpty) =
          [joinTrimmed p separator ls] := by simp [hl, hls]
      have hempty : (([l].map (trim p)).filter fun l => !l.isEmpty) = [] := by simp [hl]
      rw [hsingle, hempty, append_nil]
      simp [joinTrimmed, intercalate]
  · rcases eq_or_ne (joinTrimmed p separator ls) [] with hls | hls
    · simp [hl, hls, hnil.mp hls]
    · have hne := fun h => hls (hnil.mpr h)
      have hsingle : ((([l].map (trim p)).filter fun l => !l.isEmpty)) = [l.trim p] := by simp [hl]
      have hboth : (([joinTrimmed p separator ls, l.trim p]).filter fun l => !l.isEmpty) =
          [joinTrimmed p separator ls] ++ [l.trim p] := by simp [hl, hls]
      rw [hsingle, intercalate_concat hne, hboth, intercalate_concat (by simp)]
      simp [joinTrimmed, intercalate]

end List
