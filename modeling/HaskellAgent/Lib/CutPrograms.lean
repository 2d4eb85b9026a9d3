import Mathlib.Logic.Basic

/-!
# Programs that can be cut off

A program performs operations on a store one after the other and goes on with what each of them
returns.  How an operation ends is chosen from outside: it returns something, or the program is cut
off in the middle of it.  A program is also cut off where no choice is left for its next operation.

## Main definitions

* `CutProgram` — programs.
* `CutProgram.run` — what a program leaves behind, and what it returns unless it is cut off.
* `CutProgram.complete` — a run that is not cut off.
* `CutProgram.Returns` — a condition on what a program returns.
* `CutProgram.Keeps` — a condition on every store the program can leave behind, and one on what it
  returns.

## Main results

* `CutProgram.Keeps.run` — **what is kept at every operation is kept by every run**.
* `CutProgram.Keeps.bind` — programs one after the other.
-/

/-- A program with operations `ω`, which return `ρ`. -/
inductive CutProgram (ω ρ α : Type)
  | done (result : α)
  | perform (operation : ω) (next : ρ → CutProgram ω ρ α)

namespace CutProgram

variable {ω ρ α β σ χ : Type}

/-- One program and then another. -/
def bind : CutProgram ω ρ α → (α → CutProgram ω ρ β) → CutProgram ω ρ β
  | .done a, f => f a
  | .perform operation next, f => .perform operation fun r => (next r).bind f

instance : Monad (CutProgram ω ρ) where
  pure := .done
  bind := .bind

@[simp] theorem done_bind (a : α) (f : α → CutProgram ω ρ β) : (done a >>= f) = f a := rfl

@[simp] theorem perform_bind (operation : ω) (next : ρ → CutProgram ω ρ α)
    (f : α → CutProgram ω ρ β) :
    (perform operation next >>= f) = .perform operation fun r => next r >>= f := rfl

theorem bind_bind {γ : Type} (p : CutProgram ω ρ α) (f : α → CutProgram ω ρ β)
    (g : β → CutProgram ω ρ γ) : ((p >>= f) >>= g) = p >>= fun a => f a >>= g := by
  induction p with
  | done a => rfl
  | perform operation next ih => exact congrArg (perform operation) (funext ih)

section Run

variable (apply : σ → ω → χ → σ × Option ρ)

/-- Run with the choices given, one for each operation. -/
def run : CutProgram ω ρ α → List χ → σ → σ × Option α
  | .done a, _, s => (s, some a)
  | .perform _ _, [], s => (s, none)
  | .perform operation next, c :: cs, s =>
    match apply s operation c with
    | (s', none) => (s', none)
    | (s', some r) => (next r).run cs s'

/-- Wherever the program is cut off the store meets `I`, and where it returns also `Q`. -/
def Keeps (I : σ → Prop) (Q : α → σ → Prop) : CutProgram ω ρ α → σ → Prop
  | .done a, s => I s ∧ Q a s
  | .perform operation next, s => I s ∧ ∀ c,
    match apply s operation c with
    | (s', none) => I s'
    | (s', some r) => (next r).Keeps I Q s'

variable {apply} {I J : σ → Prop} {Q : α → σ → Prop} {R : β → σ → Prop}

theorem Keeps.of_done {a : α} {s : σ} (hI : I s) (hQ : Q a s) :
    (done a : CutProgram ω ρ α).Keeps apply I Q s :=
  ⟨hI, hQ⟩

/-- **What is kept at every operation is kept by every run.** -/
theorem Keeps.run {p : CutProgram ω ρ α} {s : σ} (h : p.Keeps apply I Q s) (cs : List χ) :
    I (p.run apply cs s).1 ∧ ∀ a, (p.run apply cs s).2 = some a → Q a (p.run apply cs s).1 := by
  induction p generalizing cs s with
  | done a =>
    refine ⟨h.1, fun b hb => ?_⟩
    obtain rfl := Option.some.inj hb
    exact h.2
  | perform operation next ih =>
    cases cs with
    | nil => exact ⟨h.1, fun b hb => nomatch hb⟩
    | cons c cs =>
      have hc := h.2 c
      rw [CutProgram.run]
      rcases happly : apply s operation c with ⟨s', r⟩
      rw [happly] at hc
      cases r with
      | none => exact ⟨hc, fun b hb => nomatch hb⟩
      | some r => exact ih r hc cs

/-- Programs one after the other. -/
theorem Keeps.bind {p : CutProgram ω ρ α} {f : α → CutProgram ω ρ β} {s : σ}
    (h : p.Keeps apply I Q s) (hf : ∀ a t, Q a t → (f a).Keeps apply I R t) :
    (p >>= f).Keeps apply I R s := by
  induction p generalizing s with
  | done a => exact hf a s h.2
  | perform operation next ih =>
    refine ⟨h.1, fun c => ?_⟩
    have hc := h.2 c
    rcases happly : apply s operation c with ⟨s', r⟩
    rw [happly] at hc
    cases r with
    | none => exact hc
    | some r => exact ih r hc

end Run

section Complete

variable (apply : σ → ω → σ × ρ)

/-- Run to the end, where no operation is cut off. -/
def complete : CutProgram ω ρ α → σ → σ × α
  | .done a, s => (s, a)
  | .perform operation next, s =>
    (next (apply s operation).2).complete (apply s operation).1

@[simp] theorem complete_done (a : α) (s : σ) :
    (done a : CutProgram ω ρ α).complete apply s = (s, a) := rfl

@[simp] theorem complete_perform (operation : ω) (next : ρ → CutProgram ω ρ α) (s : σ) :
    (perform operation next).complete apply s =
      (next (apply s operation).2).complete apply (apply s operation).1 := rfl

/-- Programs one after the other. -/
theorem complete_bind (p : CutProgram ω ρ α) (f : α → CutProgram ω ρ β) (s : σ) :
    (p >>= f).complete apply s = (f (p.complete apply s).2).complete apply (p.complete apply s).1 := by
  induction p generalizing s with
  | done a => rfl
  | perform operation next ih => exact ih (apply s operation).2 (apply s operation).1

/-- A program that is not cut off is run to its end. -/
theorem run_eq_complete {choose : σ → ω → χ → σ × Option ρ} {c : χ}
    (hchoose : ∀ s operation, choose s operation c = ((apply s operation).1, some (apply s operation).2))
    (p : CutProgram ω ρ α) (s : σ) :
    ∃ n, ∀ m, n ≤ m → p.run choose (List.replicate m c) s =
      ((p.complete apply s).1, some (p.complete apply s).2) := by
  induction p generalizing s with
  | done a => exact ⟨0, fun m _ => by cases m <;> rfl⟩
  | perform operation next ih =>
    obtain ⟨n, hn⟩ := ih (apply s operation).2 (apply s operation).1
    refine ⟨n + 1, fun m hm => ?_⟩
    cases m with
    | zero => omega
    | succ m =>
      rw [List.replicate_succ, run, hchoose]
      exact hn m (by omega)

end Complete

/-! ### What is returned -/

/-- Whatever the operations return, the program returns something with the property. -/
def Returns (Q : α → Prop) : CutProgram ω ρ α → Prop
  | .done a => Q a
  | .perform _ next => ∀ r, (next r).Returns Q

/-- Programs one after the other. -/
theorem Returns.bind {p : CutProgram ω ρ α} {f : α → CutProgram ω ρ β} {Q : α → Prop}
    {R : β → Prop} (h : p.Returns Q) (hf : ∀ a, Q a → (f a).Returns R) : (p >>= f).Returns R := by
  induction p with
  | done a => exact hf a h
  | perform operation next ih => exact fun r => ih r (h r)

/-- **What a run returns has the property.** -/
theorem Returns.run {apply : σ → ω → χ → σ × Option ρ} {p : CutProgram ω ρ α} {Q : α → Prop}
    (h : p.Returns Q) {cs : List χ} {s s' : σ} {a : α} (hrun : p.run apply cs s = (s', some a)) :
    Q a := by
  induction p generalizing cs s with
  | done b =>
    obtain rfl := Option.some.inj (Prod.ext_iff.mp hrun).2
    exact h
  | perform operation next ih =>
    cases cs with
    | nil => cases hrun
    | cons c cs =>
      rw [CutProgram.run] at hrun
      rcases happly : apply s operation c with ⟨s₁, reply | r⟩
      · rw [happly] at hrun
        cases hrun
      · rw [happly] at hrun
        exact ih r (h r) hrun

end CutProgram
