import Mathlib.Logic.Relation

/-!
# Acyclic relations

A relation is acyclic when nothing is related to itself through one step or more.  An acyclic
relation stays so when a step `s → t` is added, provided `s` was not within reach of `t`.

## Main definitions

* `Acyclic r` — no path of `r` returns to its start.

## Main results

* `Acyclic.mono` — a part of an acyclic relation is acyclic.
* `Acyclic.insert` — **adding a step whose start is out of reach of its end closes no cycle**.
-/

namespace Relation

variable {α : Type*} {r r' : α → α → Prop} {s t : α}

/-- No path returns to its start. -/
def Acyclic (r : α → α → Prop) : Prop := ∀ x, ¬ TransGen r x x

theorem Acyclic.mono (h : Acyclic r) (hle : ∀ x y, r' x y → r x y) : Acyclic r' :=
  fun x hx => h x (TransGen.mono hle x x hx)

/-- A path that may use the step `s → t` avoids it, or runs up to `s` and on from `t`. -/
theorem transGen_insert {x y : α} (h : TransGen (fun a b => r a b ∨ (a = s ∧ b = t)) x y) :
    TransGen r x y ∨ (ReflTransGen r x s ∧ ReflTransGen r t y) := by
  induction h with
  | single hstep =>
    rcases hstep with hr | ⟨rfl, rfl⟩
    · exact .inl (.single hr)
    · exact .inr ⟨.refl, .refl⟩
  -- the path ends in an old step, which goes on from either, or in the new one, which resets it
  | tail _ hstep ih =>
    rcases hstep with hr | ⟨rfl, rfl⟩
    · rcases ih with hold | ⟨hto, hfrom⟩
      · exact .inl (hold.tail hr)
      · exact .inr ⟨hto, hfrom.tail hr⟩
    · rcases ih with hold | ⟨hto, _⟩
      · exact .inr ⟨hold.to_reflTransGen, .refl⟩
      · exact .inr ⟨hto, .refl⟩

/-- **A new step closes no cycle if its start is out of reach of its end.** -/
theorem Acyclic.insert (h : Acyclic r) (hout : ¬ ReflTransGen r t s) :
    Acyclic (fun a b => r a b ∨ (a = s ∧ b = t)) := by
  intro x hx
  rcases transGen_insert hx with hcycle | ⟨hto, hfrom⟩
  · exact h x hcycle
  · exact hout (hfrom.trans hto)

end Relation
