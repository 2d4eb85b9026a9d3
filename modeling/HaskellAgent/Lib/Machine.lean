import Mathlib.Logic.Relation

/-!
# Machines and their runs

A machine is a partial step function: `step s e` is the state after the event `e`, and `none`
where `e` is not enabled in `s`.  Interleavings of several threads are sequences of such events,
so a property of every interleaving is a property of every reachable state.

Many results here hold only of the runs that stay clear of some situation, so reachability carries
a condition on every step taken, evaluated in the state before it.

## Main definitions

* `run step s es` — the state after the events `es`, if all of them are enabled in turn.
* `ReachableBy step ok s₀ s` — `s` is reached from `s₀` by steps that each meet `ok`.
* `Reachable step s₀ s` — the same with no condition.
* `guarded ok step` — the machine that only takes the steps meeting `ok`.

## Main results

* `ReachableBy.invariant` — what holds initially and is kept by every step meeting the condition
  holds in every state reached.
* `reachable_of_run`, `reachableBy_of_run` — a computed run is a proof of reachability.
* `exists_reachableBy_of_run` — the same, with a test of the last state computed along.
-/

namespace Machine

variable {σ ε : Type*}

/-- Run the events in turn; `none` as soon as one of them is not enabled. -/
def run (step : σ → ε → Option σ) : σ → List ε → Option σ
  | s, [] => some s
  | s, e :: es => (step s e).bind fun s' => run step s' es

@[simp] theorem run_nil (step : σ → ε → Option σ) (s : σ) : run step s [] = some s := rfl

@[simp] theorem run_cons (step : σ → ε → Option σ) (s : σ) (e : ε) (es : List ε) :
    run step s (e :: es) = (step s e).bind fun s' => run step s' es := rfl

/-- The machine restricted to the steps that meet `ok`. -/
def guarded (ok : σ → ε → Prop) [∀ s e, Decidable (ok s e)] (step : σ → ε → Option σ) :
    σ → ε → Option σ :=
  fun s e => if ok s e then step s e else none

/-- `s` is reached from `s₀` by steps that each meet `ok` in the state before them. -/
inductive ReachableBy (step : σ → ε → Option σ) (ok : σ → ε → Prop) (s₀ : σ) : σ → Prop
  | refl : ReachableBy step ok s₀ s₀
  | tail {s s' : σ} {e : ε} : ReachableBy step ok s₀ s → ok s e → step s e = some s' →
      ReachableBy step ok s₀ s'

/-- `s` is reached from `s₀` by some run. -/
def Reachable (step : σ → ε → Option σ) (s₀ s : σ) : Prop :=
  ReachableBy step (fun _ _ => True) s₀ s

variable {step : σ → ε → Option σ} {ok ok' : σ → ε → Prop} {s₀ s s' s'' : σ}

/-- **The invariant rule.** -/
theorem ReachableBy.invariant {I : σ → Prop} (h : ReachableBy step ok s₀ s) (h₀ : I s₀)
    (hstep : ∀ s e s', I s → ok s e → step s e = some s' → I s') : I s := by
  induction h with
  | refl => exact h₀
  | tail _ hok hst ih => exact hstep _ _ _ ih hok hst

theorem ReachableBy.trans (h : ReachableBy step ok s s') (h' : ReachableBy step ok s' s'') :
    ReachableBy step ok s s'' := by
  induction h' with
  | refl => exact h
  | tail _ hok hst ih => exact .tail ih hok hst

theorem ReachableBy.mono (h : ReachableBy step ok s₀ s) (hok : ∀ s e, ok s e → ok' s e) :
    ReachableBy step ok' s₀ s := by
  induction h with
  | refl => exact .refl
  | tail _ hs hst ih => exact .tail ih (hok _ _ hs) hst

/-- A conditional run is a run. -/
theorem ReachableBy.reachable (h : ReachableBy step ok s₀ s) : Reachable step s₀ s :=
  h.mono fun _ _ _ => trivial

variable {es : List ε}

/-- **A computed run of the guarded machine is a run that meets the condition.** -/
theorem reachableBy_of_run [∀ s e, Decidable (ok s e)]
    (h : run (guarded ok step) s es = some s') : ReachableBy step ok s s' := by
  induction es generalizing s with
  | nil =>
    rw [run_nil, Option.some.injEq] at h
    exact h ▸ .refl
  | cons e es ih =>
    rw [run_cons, Option.bind_eq_some_iff] at h
    obtain ⟨t, ht, hrun⟩ := h
    -- the first step passed the guard, so it is a step of the machine itself
    have hok : ok s e ∧ step s e = some t := by
      unfold guarded at ht
      split at ht
      · exact ⟨‹_›, ht⟩
      · cases ht
    exact (ReachableBy.tail .refl hok.1 hok.2).trans (ih hrun)

/-- **A computed run is a run.** -/
theorem reachable_of_run (h : run step s es = some s') : Reachable step s s' := by
  have hg : guarded (fun _ _ => True) step = step := by
    funext s e
    simp [guarded]
  rw [← hg] at h
  exact reachableBy_of_run h

/-- A computed run whose last state passes a test. -/
theorem exists_reachableBy_of_run [∀ s e, Decidable (ok s e)] {p : σ → Bool}
    (h : (run (guarded ok step) s es).any p = true) : ∃ s', ReachableBy step ok s s' ∧ p s' := by
  obtain ⟨s', hrun, hp⟩ := (Option.any_eq_true _ _).mp h
  exact ⟨s', reachableBy_of_run hrun, hp⟩

theorem exists_reachable_of_run {p : σ → Bool}
    (h : (run step s es).any p = true) : ∃ s', Reachable step s s' ∧ p s' := by
  obtain ⟨s', hrun, hp⟩ := (Option.any_eq_true _ _).mp h
  exact ⟨s', reachable_of_run hrun, hp⟩

end Machine
