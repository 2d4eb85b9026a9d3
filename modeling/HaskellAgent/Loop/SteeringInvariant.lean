import HaskellAgent.Loop.Steering
import Mathlib.Data.List.Nodup
import Mathlib.Data.List.Perm.Basic

/-!
# What the loop owes its steering sources

The acknowledgement debt of the loop is one number, and `fromHost` splits it by the composition of
the last batch that was read.  The split is right as long as it denotes the inputs that are pending
or have been submitted: `owed` is what an acknowledgement would remove from the sources, and the
invariant says that this is what the loop holds.

A batch read after a steering interrupt lists the host's guidance before the children's reports.
When the host accepted guidance in the meantime and reports are pending, the new guidance stands
where the reports stood, and the number no longer denotes them.  `Aligned` is the condition that
excludes this, and a second acknowledgement of a debt that was already paid.
-/

open List
open Option hiding min_eq_left min_eq_right min_le_left

namespace HaskellAgent

/-! ### Serial numbers -/

theorem serial_numberFrom (start : ℕ) (inputs : List (TurnInput × Option Text)) :
    (numberFrom start inputs).map (·.serial) = List.range' start inputs.length := by
  induction inputs generalizing start with
  | nil => rfl
  | cons entry rest ih =>
    obtain ⟨input, key⟩ := entry
    rw [numberFrom, map_cons, ih, length_cons, range'_succ]

theorem serial_mem_numberFrom {start : ℕ} {inputs : List (TurnInput × Option Text)} {g : Guidance}
    (h : g ∈ numberFrom start inputs) : start ≤ g.serial ∧ g.serial < start + inputs.length := by
  have hmem : g.serial ∈ (numberFrom start inputs).map (·.serial) := List.mem_map_of_mem h
  rw [serial_numberFrom, mem_range'_1] at hmem
  exact hmem

@[simp] theorem guidanceOf_append (xs ys : List LoopInput) :
    guidanceOf (xs ++ ys) = guidanceOf xs ++ guidanceOf ys :=
  filterMap_append

@[simp] theorem guidanceOf_steering (gs : List Guidance) :
    guidanceOf (gs.map .steering) = gs := by
  simp [guidanceOf, filterMap_map]

@[simp] theorem guidanceOf_plain {α : Type*} (f : α → TurnInput) (xs : List α) :
    guidanceOf (xs.map fun x => .plain (f x)) = [] := by
  simp [guidanceOf, filterMap_map]

namespace LoopWorld

variable {s s' : LoopWorld}

/-! ### The debt -/

/-- The steering inputs among the pending inputs. -/
def guidance (s : LoopWorld) : List Guidance := guidanceOf s.pending.inputs

/-- The part of the debt that `loopCommitSteering` takes from the host. -/
def hostDebt (s : LoopWorld) : ℕ := s.fromHost s.pending.steeringToAcknowledge

/-- The part it takes from the children. -/
def childDebt (s : LoopWorld) : ℕ := s.pending.steeringToAcknowledge - s.hostDebt

/-- The inputs that acknowledging the debt has still to remove from the sources. -/
def owed (s : LoopWorld) : List Guidance :=
  (if s.hostPaid then [] else s.host.entries.take s.hostDebt) ++
    (if s.childrenPaid then [] else s.children.take s.childDebt)

/-- No part of the debt is paid yet. -/
def Unpaid (s : LoopWorld) : Prop := s.hostPaid = false ∧ s.childrenPaid = false

/-- What is pending is what is owed, and a turn that is not resumed owes nothing. -/
def ReadyFor (s : LoopWorld) (why : ReadFor) : Prop :=
  s.guidance.Perm s.owed ∧ (why ≠ .steered → s.pending.steeringToAcknowledge = 0)

/-- `batch` is made of prefixes of the two sources that stay where they are. -/
def Batch (s : LoopWorld) (a b : ℕ) (batch : List Guidance) : Prop :=
  batch = s.host.entries.take a ++ s.children.take b ∧ a ≤ s.host.reserved ∧
    b ≤ s.children.length

/-- The condition on a move: guidance read after a steering interrupt finds the host's queue as
long as it was at the last read, or no report among the unacknowledged inputs; and `recoverTools`
acknowledges nothing a second time. -/
def Aligned (s : LoopWorld) (move : LoopMove) : Prop :=
  match move, s.pc with
  | .readHost, .readingHost .steered =>
      s.config.loopSubagents = true →
        s.pending.steeringToAcknowledge ≤ s.hostShare ∨ s.host.entries.length = s.hostShare
  | .commitHost, .acknowledgingHost .tools =>
      s.hostPaid = true → s.hostDebt = 0 ∨ s.host.entries = []
  | .commitChildren, .acknowledgingChildren .tools count =>
      s.childrenPaid = true → count = 0 ∨ s.children = []
  | _, _ => True

instance (s : LoopWorld) (move : LoopMove) : Decidable (s.Aligned move) := by
  unfold Aligned
  split <;> infer_instance

/-! ### The invariant -/

/-- What holds where the worker is. -/
def WorkerInv (s : LoopWorld) : LoopPc → Prop
  | .readingHost why => s.Unpaid ∧ s.ReadyFor why
  | .readingChildren why host =>
      s.Unpaid ∧ s.ReadyFor why ∧ s.config.loopSubagents = true ∧
        s.Batch host.length 0 host ∧ s.hostDebt ≤ host.length ∧
        (s.childDebt = 0 ∨ host.length = s.hostShare)
  | .gotSteering why steering =>
      s.Unpaid ∧ s.ReadyFor why ∧ ∃ a b, s.Batch a b steering ∧ s.fromHost (a + b) = a ∧
        s.hostDebt ≤ a ∧ s.childDebt ≤ b ∧ (s.childDebt = 0 ∨ a = s.hostDebt)
  | .top | .steered => s.Unpaid ∧ s.guidance.Perm s.owed
  | .submitting | .recovering _ | .responded =>
      s.Unpaid ∧ s.guidance.Perm s.owed ∧ ∀ g ∈ s.owed, g ∈ s.appeared
  | .absorbed => s.Unpaid ∧ s.guidance = [] ∧ ∀ g ∈ s.owed, g ∈ s.appeared
  | .acknowledgingHost why =>
      s.guidance = [] ∧ (∀ g ∈ s.owed, g ∈ s.appeared) ∧ (why ≠ .tools → s.Unpaid)
  | .acknowledgingChildren why count =>
      s.guidance = [] ∧ (∀ g ∈ s.owed, g ∈ s.appeared) ∧ s.hostPaid = true ∧
        count = s.childDebt ∧ (why ≠ .tools → s.childrenPaid = false)
  | .clearing _ => s.guidance = []
  | .tools | .closingChildren | .closingHost =>
      s.Unpaid ∧ s.pending.steeringToAcknowledge = 0 ∧ s.guidance = []
  | .gotLate late =>
      s.Unpaid ∧ s.pending.steeringToAcknowledge = 0 ∧ s.guidance = [] ∧
        ∃ a b, s.Batch a b late ∧ s.fromHost (a + b) = a
  | .stopped | .done => True

/-- The invariant of the loop. -/
structure Inv (s : LoopWorld) : Prop where
  fresh : ∀ g ∈ s.host.entries ++ s.children, g.serial < s.nextSerial
  distinct : ((s.host.entries ++ s.children).map (·.serial)).Nodup
  wellFormed : s.host.WellFormed
  noChildren : s.config.loopSubagents = false → s.children = []
  acknowledged : ∀ g ∈ s.acknowledged, g ∈ s.appeared
  hostDebt_le : s.hostPaid = false → s.hostDebt ≤ s.host.reserved
  childDebt_le : s.childrenPaid = false → s.childDebt ≤ s.children.length
  covered : s.guidance.Perm s.owed ∨ (s.guidance = [] ∧ ∀ g ∈ s.owed, g ∈ s.appeared)
  worker : s.WorkerInv s.pc

/-! ### Moves of the other threads -/

/-- `s'` is `s` with other sources, whose prefixes that the loop relies on are unchanged. -/
structure Undisturbed (s s' : LoopWorld) : Prop where
  config : s'.config = s.config
  hostShare : s'.hostShare = s.hostShare
  pending : s'.pending = s.pending
  hostPaid : s'.hostPaid = s.hostPaid
  childrenPaid : s'.childrenPaid = s.childrenPaid
  appeared : s'.appeared = s.appeared
  reserved : s'.host.reserved = s.host.reserved
  host : ∀ n ≤ s.host.reserved, s'.host.entries.take n = s.host.entries.take n
  children_le : s.children.length ≤ s'.children.length
  children : ∀ n ≤ s.children.length, s'.children.take n = s.children.take n

namespace Undisturbed

section

variable (h : Undisturbed s s')
include h

theorem fromHost (count : ℕ) : s'.fromHost count = s.fromHost count := by
  rw [LoopWorld.fromHost, LoopWorld.fromHost, h.config, h.hostShare]

theorem hostDebt : s'.hostDebt = s.hostDebt := by
  rw [LoopWorld.hostDebt, LoopWorld.hostDebt, h.fromHost, h.pending]

theorem childDebt : s'.childDebt = s.childDebt := by
  rw [LoopWorld.childDebt, LoopWorld.childDebt, h.hostDebt, h.pending]

theorem guidance : s'.guidance = s.guidance := by
  rw [LoopWorld.guidance, LoopWorld.guidance, h.pending]

theorem owed (hinv : s.Inv) : s'.owed = s.owed := by
  have hhost : (if s'.hostPaid then [] else s'.host.entries.take s'.hostDebt)
      = if s.hostPaid then [] else s.host.entries.take s.hostDebt := by
    rw [h.hostPaid, h.hostDebt]
    cases hp : s.hostPaid with
    | true => rfl
    | false => exact h.host _ (hinv.hostDebt_le hp)
  have hchildren : (if s'.childrenPaid then [] else s'.children.take s'.childDebt)
      = if s.childrenPaid then [] else s.children.take s.childDebt := by
    rw [h.childrenPaid, h.childDebt]
    cases hp : s.childrenPaid with
    | true => rfl
    | false => exact h.children _ (hinv.childDebt_le hp)
  rw [LoopWorld.owed, LoopWorld.owed, hhost, hchildren]

theorem batch {a b : ℕ} {batch : List Guidance} (hb : s.Batch a b batch) :
    s'.Batch a b batch := by
  obtain ⟨rfl, ha, hle⟩ := hb
  refine ⟨?_, by rw [h.reserved]; exact ha, le_trans hle h.children_le⟩
  rw [h.host a ha, h.children b hle]

theorem unpaid (hu : s.Unpaid) : s'.Unpaid :=
  ⟨h.hostPaid.trans hu.1, h.childrenPaid.trans hu.2⟩

theorem readyFor (hinv : s.Inv) {why : ReadFor} (hr : s.ReadyFor why) :
    s'.ReadyFor why := by
  refine ⟨?_, ?_⟩
  · rw [h.guidance, h.owed hinv]
    exact hr.1
  · rw [h.pending]
    exact hr.2

/-- The worker does not notice. -/
theorem workerInv (hinv : s.Inv) {pc : LoopPc} (hw : s.WorkerInv pc) :
    s'.WorkerInv pc := by
  cases pc with
  | readingHost why => exact ⟨h.unpaid hw.1, h.readyFor hinv hw.2⟩
  | readingChildren why host =>
    obtain ⟨hu, hr, hsub, hb, hle, hal⟩ := hw
    refine ⟨h.unpaid hu, h.readyFor hinv hr, ?_, h.batch hb, ?_, ?_⟩
    · rw [h.config]; exact hsub
    · rw [h.hostDebt]; exact hle
    · rw [h.childDebt, h.hostShare]; exact hal
  | gotSteering why steering =>
    obtain ⟨hu, hr, a, b, hb, hf, hle, hle', hal⟩ := hw
    refine ⟨h.unpaid hu, h.readyFor hinv hr, a, b, h.batch hb, ?_, ?_, ?_, ?_⟩
    · rw [h.fromHost]; exact hf
    · rw [h.hostDebt]; exact hle
    · rw [h.childDebt]; exact hle'
    · rw [h.childDebt, h.hostDebt]; exact hal
  | gotLate late =>
    obtain ⟨hu, hz, hg, a, b, hb, hf⟩ := hw
    refine ⟨h.unpaid hu, ?_, ?_, a, b, h.batch hb, ?_⟩
    · rw [h.pending]; exact hz
    · rw [h.guidance]; exact hg
    · rw [h.fromHost]; exact hf
  | acknowledgingHost why =>
    obtain ⟨hg, ho, hu⟩ := hw
    refine ⟨by rw [h.guidance]; exact hg, ?_, fun hne => h.unpaid (hu hne)⟩
    rw [h.owed hinv, h.appeared]
    exact ho
  | acknowledgingChildren why count =>
    obtain ⟨hg, ho, hp, hc, hu⟩ := hw
    refine ⟨by rw [h.guidance]; exact hg, ?_, by rw [h.hostPaid]; exact hp,
      by rw [h.childDebt]; exact hc, fun hne => by rw [h.childrenPaid]; exact hu hne⟩
    rw [h.owed hinv, h.appeared]
    exact ho
  | clearing why =>
    show s'.guidance = []
    rw [h.guidance]
    exact hw
  | stopped | done => trivial
  | top | steered =>
    refine ⟨h.unpaid hw.1, ?_⟩
    rw [h.guidance, h.owed hinv]
    exact hw.2
  | submitting | recovering _ | responded =>
    refine ⟨h.unpaid hw.1, ?_, ?_⟩
    · rw [h.guidance, h.owed hinv]; exact hw.2.1
    · rw [h.owed hinv, h.appeared]; exact hw.2.2
  | absorbed =>
    refine ⟨h.unpaid hw.1, ?_, ?_⟩
    · rw [h.guidance]; exact hw.2.1
    · rw [h.owed hinv, h.appeared]; exact hw.2.2
  | tools | closingChildren | closingHost =>
    refine ⟨h.unpaid hw.1, ?_, ?_⟩
    · rw [h.pending]; exact hw.2.1
    · rw [h.guidance]; exact hw.2.2

/-- A move of another thread keeps the invariant when it keeps the sources well formed. -/
theorem inv (hinv : s.Inv) (hpc : s'.pc = s.pc)
    (hack : s'.acknowledged = s.acknowledged)
    (hfresh : ∀ g ∈ s'.host.entries ++ s'.children, g.serial < s'.nextSerial)
    (hdistinct : ((s'.host.entries ++ s'.children).map (·.serial)).Nodup)
    (hwf : s'.host.WellFormed)
    (hno : s.config.loopSubagents = false → s'.children = []) : s'.Inv where
  fresh := hfresh
  distinct := hdistinct
  wellFormed := hwf
  noChildren := by rw [h.config]; exact hno
  acknowledged := by rw [hack, h.appeared]; exact hinv.acknowledged
  hostDebt_le := by rw [h.hostPaid, h.hostDebt, h.reserved]; exact hinv.hostDebt_le
  childDebt_le := by
    rw [h.childrenPaid, h.childDebt]
    exact fun hp => le_trans (hinv.childDebt_le hp) h.children_le
  covered := by rw [h.guidance, h.owed hinv, h.appeared]; exact hinv.covered
  worker := by rw [hpc]; exact h.workerInv hinv hinv.worker

end

end Undisturbed

/-- New serial numbers are new. -/
theorem numberFrom_fresh {gs : List Guidance} {start : ℕ}
    (inputs : List (TurnInput × Option Text)) (hfresh : ∀ g ∈ gs, g.serial < start)
    (hdistinct : (gs.map (·.serial)).Nodup) :
    (∀ g ∈ gs ++ numberFrom start inputs, g.serial < start + inputs.length) ∧
      ((gs ++ numberFrom start inputs).map (·.serial)).Nodup := by
  refine ⟨?_, ?_⟩
  · intro g hg
    rcases mem_append.mp hg with hg | hg
    · exact Nat.lt_of_lt_of_le (hfresh g hg) (Nat.le_add_right _ _)
    · exact (serial_mem_numberFrom hg).2
  · rw [map_append, nodup_append, serial_numberFrom]
    refine ⟨hdistinct, nodup_range', ?_⟩
    intro x hx y hy
    obtain ⟨g, hg, rfl⟩ := List.mem_map.mp hx
    have hlt := hfresh g hg
    have hge := (mem_range'_1.mp hy).1
    omega

theorem Inv.hostEnqueue (h : s.Inv) (inputs : List (TurnInput × Option Text)) :
    Inv { s with
      host := s.host.append (s.numbered inputs)
      nextSerial := s.nextSerial + inputs.length } := by
  have hperm : (s.host.entries ++ s.numbered inputs ++ s.children).Perm
      (s.host.entries ++ s.children ++ s.numbered inputs) := by
    rw [append_assoc, append_assoc]
    exact perm_append_comm.append_left _
  obtain ⟨hfresh, hdistinct⟩ := numberFrom_fresh inputs h.fresh h.distinct
  refine Undisturbed.inv (s := s) ⟨rfl, rfl, rfl, rfl, rfl, rfl, rfl, ?_, le_refl _, fun _ _ => rfl⟩
    h rfl rfl (fun g hg => hfresh g (hperm.mem_iff.mp hg)) ((hperm.map _).nodup_iff.mpr hdistinct)
    (h.wellFormed.append _) h.noChildren
  exact fun n hn => s.host.take_append_entries _ (le_trans hn h.wellFormed)

theorem Inv.hostDismiss (h : s.Inv) (p : Guidance → Bool) :
    Inv { s with host := s.host.dismiss p } := by
  have hsub : ((s.host.dismiss p).entries ++ s.children).Sublist (s.host.entries ++ s.children) :=
    (s.host.dismiss_sublist p).append (List.Sublist.refl _)
  refine Undisturbed.inv (s := s) ⟨rfl, rfl, rfl, rfl, rfl, rfl, rfl, ?_, le_refl _, fun _ _ => rfl⟩
    h rfl rfl (fun g hg => h.fresh g (hsub.subset hg)) (h.distinct.sublist (hsub.map _))
    (h.wellFormed.dismiss p) h.noChildren
  exact fun n hn => AckQueue.take_dismiss_entries h.wellFormed p hn

theorem Inv.childReport (h : s.Inv) (inputs : List (TurnInput × Option Text))
    (hsub : s.config.loopSubagents = true) :
    Inv { s with
      children := s.children ++ s.numbered inputs
      nextSerial := s.nextSerial + inputs.length } := by
  obtain ⟨hfresh, hdistinct⟩ := numberFrom_fresh inputs h.fresh h.distinct
  refine Undisturbed.inv (s := s) ⟨rfl, rfl, rfl, rfl, rfl, rfl, rfl, fun _ _ => rfl, ?_, ?_⟩
    h rfl rfl ?_ ?_ h.wellFormed ?_
  · simp
  · exact fun n hn => take_append_of_le_length hn
  · rw [← append_assoc]
    exact hfresh
  · rw [← append_assoc]
    exact hdistinct
  · intro hno
    rw [hsub] at hno
    cases hno

/-! ### Moves of the worker -/

/-- The debt never exceeds what is to be acknowledged. -/
theorem hostDebt_le_total (s : LoopWorld) : s.hostDebt ≤ s.pending.steeringToAcknowledge := by
  unfold hostDebt fromHost
  split
  · exact min_le_left _ _
  · exact le_refl _

theorem debt_total (s : LoopWorld) :
    s.hostDebt + s.childDebt = s.pending.steeringToAcknowledge := by
  have := s.hostDebt_le_total
  unfold childDebt
  omega

theorem owed_of_unpaid (hu : s.Unpaid) :
    s.owed = s.host.entries.take s.hostDebt ++ s.children.take s.childDebt := by
  unfold owed
  rw [hu.1, hu.2]
  rfl

theorem owed_of_zero (hz : s.pending.steeringToAcknowledge = 0) : s.owed = [] := by
  have htotal := s.debt_total
  have hh : s.hostDebt = 0 := by omega
  have hc : s.childDebt = 0 := by omega
  simp [owed, hh, hc]

/-- Nothing is pending where nothing is owed. -/
theorem ReadyFor.guidance_nil {why : ReadFor} (h : s.ReadyFor why)
    (hz : s.pending.steeringToAcknowledge = 0) : s.guidance = [] := by
  have hperm := h.1
  rw [owed_of_zero hz] at hperm
  exact hperm.eq_nil

/-- The worker moves on without touching what the invariant is about. -/
theorem Inv.goto (h : s.Inv) (checkpoint store turnsUsed : ℕ) {pc : LoopPc}
    (hw : s.WorkerInv pc) :
    Inv { s with checkpoint := checkpoint, store := store, turnsUsed := turnsUsed, pc := pc } where
  fresh := h.fresh
  distinct := h.distinct
  wellFormed := h.wellFormed
  noChildren := h.noChildren
  acknowledged := h.acknowledged
  hostDebt_le := h.hostDebt_le
  childDebt_le := h.childDebt_le
  covered := h.covered
  worker := Undisturbed.workerInv (s := s)
    ⟨rfl, rfl, rfl, rfl, rfl, rfl, rfl, fun _ _ => rfl, le_refl _, fun _ _ => rfl⟩ h hw

/-- **The drop of a resumed turn is exact**: the inputs counted as unacknowledged are the first
ones of the new batch. -/
theorem Batch.take_total {a b : ℕ} {batch : List Guidance} (hb : s.Batch a b batch) (h : s.Inv)
    (ha : s.hostDebt ≤ a) (hle : s.childDebt ≤ b) (hal : s.childDebt = 0 ∨ a = s.hostDebt) :
    batch.take s.pending.steeringToAcknowledge
      = s.host.entries.take s.hostDebt ++ s.children.take s.childDebt := by
  obtain ⟨rfl, hres, hlen⟩ := hb
  have hwf : s.host.reserved ≤ s.host.entries.length := h.wellFormed
  have hla : (s.host.entries.take a).length = a := by
    rw [length_take]
    omega
  rw [← s.debt_total, take_append, hla, take_take, take_take]
  rcases hal with hzero | heq
  · rw [hzero, Nat.add_zero, min_eq_left ha, Nat.sub_eq_zero_of_le ha, Nat.zero_min]
  · rw [heq, Nat.add_sub_cancel_left, min_eq_left hle, min_eq_right (Nat.le_add_right _ _)]

theorem Batch.length_eq {a b : ℕ} {batch : List Guidance} (hb : s.Batch a b batch) (h : s.Inv) :
    batch.length = a + b := by
  obtain ⟨rfl, hres, hlen⟩ := hb
  have hwf : s.host.reserved ≤ s.host.entries.length := h.wellFormed
  rw [length_append, length_take, length_take]
  omega

section

variable (h : s.Inv)
include h

/-- A batch becomes the pending guidance, and the debt. -/
theorem Inv.continueWith (hu : s.Unpaid) {a b : ℕ} {batch : List Guidance}
    (hb : s.Batch a b batch) (hf : s.fromHost (a + b) = a) {inputs : List LoopInput}
    (hperm : (guidanceOf inputs).Perm batch) (turnsUsed : ℕ) :
    (s.continueWith ⟨inputs, batch.length⟩ turnsUsed).Inv := by
  rw [hb.length_eq h]
  set t := s.continueWith ⟨inputs, a + b⟩ turnsUsed with ht
  have hhost : t.hostDebt = a := hf
  have hchild : t.childDebt = b := by
    unfold childDebt
    rw [hhost]
    exact Nat.add_sub_cancel_left a b
  have howed : t.guidance.Perm t.owed := by
    have hu' : t.Unpaid := hu
    rw [owed_of_unpaid hu', hhost, hchild]
    exact hb.1 ▸ hperm
  exact
    { fresh := h.fresh
      distinct := h.distinct
      wellFormed := h.wellFormed
      noChildren := h.noChildren
      acknowledged := h.acknowledged
      hostDebt_le := fun _ => by rw [hhost]; exact hb.2.1
      childDebt_le := fun _ => by rw [hchild]; exact hb.2.2
      covered := .inl howed
      worker := ⟨hu, howed⟩ }

theorem Inv.readHost {why : ReadFor} (hpc : s.pc = .readingHost why)
    (hal : s.Aligned .readHost) :
    Inv { s with
      host := s.host.reserve
      pc := if s.config.loopSubagents then .readingChildren why s.host.entries
        else .gotSteering why s.host.entries } := by
  have hw := h.worker
  rw [hpc] at hw
  obtain ⟨hu, hready⟩ := hw
  have hle : s.hostDebt ≤ s.host.entries.length := le_trans (h.hostDebt_le hu.1) h.wellFormed
  refine ⟨h.fresh, h.distinct, AckQueue.WellFormed.reserve _, h.noChildren, h.acknowledged,
    fun _ => hle, h.childDebt_le, h.covered, ?_⟩
  have hbatch : LoopWorld.Batch { s with host := s.host.reserve } s.host.entries.length 0
      s.host.entries := ⟨by simp, le_refl _, Nat.zero_le _⟩
  cases hsub : s.config.loopSubagents with
  | true =>
    refine ⟨hu, hready, hsub, hbatch, hle, ?_⟩
    -- the only reports that may be pending are those of an interrupted submission
    cases why with
    | steered =>
      simp only [Aligned, hpc] at hal
      rcases hal hsub with hshare | hsame
      · left
        show s.pending.steeringToAcknowledge - s.hostDebt = 0
        simp [hostDebt, fromHost, hsub, hshare]
      · exact .inr hsame
    | start | turn =>
      left
      have hz : s.pending.steeringToAcknowledge = 0 := hready.2 (by decide)
      have htotal := s.debt_total
      show s.childDebt = 0
      omega
  | false =>
    have hchild : s.childDebt = 0 := by simp [childDebt, hostDebt, fromHost, hsub]
    refine ⟨hu, hready, _, 0, hbatch, by simp [fromHost, hsub], hle, ?_, .inl hchild⟩
    exact le_of_eq hchild

theorem Inv.readChildren {why : ReadFor} {host : List Guidance}
    (hpc : s.pc = .readingChildren why host) :
    Inv { s with hostShare := host.length, pc := .gotSteering why (host ++ s.children) } := by
  have hw := h.worker
  rw [hpc] at hw
  obtain ⟨hu, hready, hsub, hb, hle, hal⟩ := hw
  set t : LoopWorld :=
    { s with hostShare := host.length, pc := .gotSteering why (host ++ s.children) } with ht
  have hfrom : ∀ count, t.fromHost count = min count host.length := fun count => by
    simp [fromHost, ht, hsub]
  have htotal := s.debt_total
  -- the new share splits the debt as the old one did
  have hhost : t.hostDebt = s.hostDebt := by
    have hnew : t.hostDebt = min s.pending.steeringToAcknowledge host.length := hfrom _
    rcases hal with hzero | hsame
    · omega
    · rw [hnew, hsame]
      simp [hostDebt, fromHost, hsub]
  have hchild : t.childDebt = s.childDebt := by
    unfold childDebt
    rw [hhost]
  have howed : t.owed = s.owed := by
    unfold owed
    rw [hhost, hchild]
  refine ⟨h.fresh, h.distinct, h.wellFormed, h.noChildren, h.acknowledged, ?_, ?_, ?_, ?_⟩
  · rw [hhost]
    exact h.hostDebt_le
  · rw [hchild]
    exact h.childDebt_le
  · rw [howed]
    exact h.covered
  · refine ⟨hu, ⟨by rw [howed]; exact hready.1, hready.2⟩, host.length, s.children.length, ?_, ?_,
      by rw [hhost]; exact hle, by rw [hchild]; exact h.childDebt_le hu.2, ?_⟩
    · refine ⟨?_, hb.2.1, le_refl _⟩
      have hhostEq := hb.1
      rw [take_zero, List.append_nil] at hhostEq
      show host ++ s.children = s.host.entries.take host.length ++ s.children.take s.children.length
      rw [← hhostEq, take_length]
    · rw [hfrom]
      exact min_eq_right (Nat.le_add_right _ _)
    · rw [hchild, hhost]
      rcases hal with hzero | hsame
      · exact .inl hzero
      · have hdebt : s.hostDebt = min s.pending.steeringToAcknowledge s.hostShare := by
          simp [hostDebt, fromHost, hsub]
        omega

theorem Inv.applySteering {why : ReadFor} {steering : List Guidance}
    (hpc : s.pc = .gotSteering why steering) : (s.applySteering why steering).Inv := by
  have hw := h.worker
  rw [hpc] at hw
  obtain ⟨hu, hready, a, b, hb, hf, hle, hle', hal⟩ := hw
  -- a turn that is not resumed has no guidance pending
  have hplain : why ≠ .steered → (guidanceOf (s.pending.inputs ++ steering.map .steering)).Perm
      steering := by
    intro hne
    have hnil : guidanceOf s.pending.inputs = [] := hready.guidance_nil (hready.2 hne)
    rw [guidanceOf_append, hnil, guidanceOf_steering, nil_append]
  cases why with
  | start => exact h.continueWith hu hb hf (hplain (by decide)) _
  | turn =>
    have hz := hready.2 (by decide)
    simp only [LoopWorld.applySteering]
    split
    · have hnil := hready.guidance_nil hz
      have hclosing : s.WorkerInv
          (if s.config.loopSubagents then .closingChildren else .closingHost) := by
        split <;> exact ⟨hu, hz, hnil⟩
      exact h.goto _ _ _ hclosing
    · exact h.continueWith hu hb hf (hplain (by decide)) _
  | steered =>
    refine h.continueWith hu hb hf ?_ _
    rw [guidanceOf_append, guidanceOf_steering]
    have htake := hb.take_total h hle hle' hal
    rw [← owed_of_unpaid hu] at htake
    calc guidanceOf s.pending.inputs ++ steering.drop s.pending.steeringToAcknowledge
        |>.Perm (s.owed ++ steering.drop s.pending.steeringToAcknowledge) :=
          hready.1.append_right _
      _ = steering := by rw [← htake, take_append_drop]

theorem Inv.submit (hpc : s.pc = .top) : Inv { s.appear with pc := .submitting } := by
  have hw := h.worker
  rw [hpc] at hw
  obtain ⟨hu, hperm⟩ := hw
  refine ⟨h.fresh, h.distinct, h.wellFormed, h.noChildren,
    fun g hg => mem_append_left _ (h.acknowledged g hg), h.hostDebt_le, h.childDebt_le,
    .inl hperm, hu, hperm, ?_⟩
  intro g hg
  exact mem_append_right _ (hperm.mem_iff.mpr hg)

variable {why : AcknowledgeFor}

/-- A recovery checkpoint holds everything that is owed. -/
theorem Inv.commitRecovery (committed : ℕ)
    (hu : why ≠ .tools → s.Unpaid) : (s.commitRecovery committed why).Inv := by
  have howed : ∀ g ∈ s.owed, g ∈ s.appeared ++ s.guidance := by
    intro g hg
    rcases h.covered with hperm | ⟨-, hall⟩
    · exact mem_append_right _ (hperm.mem_iff.mpr hg)
    · exact mem_append_left _ (hall g hg)
  exact ⟨h.fresh, h.distinct, h.wellFormed, h.noChildren,
    fun g hg => mem_append_left _ (h.acknowledged g hg), h.hostDebt_le, h.childDebt_le,
    .inr ⟨rfl, howed⟩, rfl, howed, hu⟩

theorem Inv.publishSubmissionRecovery {steering : Bool}
    (hpc : s.pc = .recovering steering) (journal : Bool) (committed : Option ℕ) :
    (s.publishSubmissionRecovery steering journal committed).Inv := by
  have hw := h.worker
  rw [hpc] at hw
  obtain ⟨hu, hperm, -⟩ := hw
  have hresume : s.WorkerInv .steered := ⟨hu, hperm⟩
  unfold LoopWorld.publishSubmissionRecovery
  split
  · exact h.goto s.store s.store s.turnsUsed hresume
  · split
    · cases committed with
      | none =>
        have hstop : s.WorkerInv .stopped := trivial
        exact h.goto s.checkpoint s.store s.turnsUsed hstop
      | some snapshot => exact h.commitRecovery snapshot fun _ => hu
    · have hnext : s.WorkerInv (if steering then .steered else .stopped) := by
        split
        · exact hresume
        · trivial
      exact h.goto s.checkpoint s.store s.turnsUsed hnext

/-- Tool results join the pending inputs. -/
theorem Inv.steeredTools (hpc : s.pc = .steered) (results : List ToolCallResult) :
    Inv { s.setPendingInputs
        (s.pending.inputs ++ results.map fun r => .plain (.completedTool r)) with
      pc := .readingHost .steered } := by
  have hw := h.worker
  rw [hpc] at hw
  have hguidance : guidanceOf (s.pending.inputs ++ results.map fun r => .plain (.completedTool r))
      = s.guidance := by
    rw [guidanceOf_append, guidanceOf_plain, List.append_nil, guidance]
  have hperm := hw.2
  rw [← hguidance] at hperm
  exact ⟨h.fresh, h.distinct, h.wellFormed, h.noChildren, h.acknowledged, h.hostDebt_le,
    h.childDebt_le, .inl hperm, hw.1, hperm, fun hne => absurd rfl hne⟩

theorem Inv.absorb (hpc : s.pc = .responded) :
    Inv { s.setPendingInputs [] with pc := .absorbed } := by
  have hw := h.worker
  rw [hpc] at hw
  obtain ⟨hu, -, howed⟩ := hw
  exact ⟨h.fresh, h.distinct, h.wellFormed, h.noChildren, h.acknowledged, h.hostDebt_le,
    h.childDebt_le, .inr ⟨rfl, howed⟩, hu, rfl, howed⟩

/-- **What the host is told was seen has been seen.** -/
theorem Inv.commitHost (hpc : s.pc = .acknowledgingHost why)
    (hal : s.Aligned .commitHost) : (s.commitHost why).Inv := by
  have hw := h.worker
  rw [hpc] at hw
  obtain ⟨hnil, howed, hu⟩ := hw
  have hseen : ∀ g ∈ s.host.entries.take s.hostDebt, g ∈ s.appeared := by
    cases hp : s.hostPaid with
    | false =>
      intro g hg
      refine howed g (mem_append_left _ ?_)
      rw [hp]
      exact hg
    | true =>
      -- only `recoverTools` acknowledges a debt that may be paid already
      have hwhy : why = .tools := by
        by_contra hne
        rw [(hu hne).1] at hp
        cases hp
      subst hwhy
      simp only [Aligned, hpc] at hal
      rcases hal hp with hz | hz <;> simp [hz]
  have hsub : (s.host.commit s.hostDebt).entries.Sublist s.host.entries := drop_sublist _ _
  have hrest : ∀ g ∈ LoopWorld.owed (s.commitHost why), g ∈ s.appeared := by
    intro g hg
    exact howed g (mem_append_right _ hg)
  refine ⟨?_, ?_, h.wellFormed.commit _, h.noChildren, ?_, ?_, h.childDebt_le,
    .inr ⟨hnil, hrest⟩, ?_⟩
  · intro g hg
    exact h.fresh g ((hsub.append (List.Sublist.refl _)).subset hg)
  · exact h.distinct.sublist ((hsub.append (List.Sublist.refl _)).map _)
  · intro g hg
    rcases mem_append.mp hg with hg | hg
    · exact h.acknowledged g hg
    · exact hseen g hg
  · intro hp
    cases hp
  · cases hsubagents : s.config.loopSubagents with
    | true =>
      simp only [LoopWorld.commitHost, hsubagents]
      refine ⟨hnil, ?_, rfl, rfl, fun hne => (hu hne).2⟩
      simpa only [LoopWorld.commitHost, hsubagents] using hrest
    | false =>
      simp only [LoopWorld.commitHost, hsubagents]
      exact hnil

theorem Inv.commitChildren {count : ℕ}
    (hpc : s.pc = .acknowledgingChildren why count) (hal : s.Aligned .commitChildren) :
    (s.commitChildren why count).Inv := by
  have hw := h.worker
  rw [hpc] at hw
  obtain ⟨hnil, howed, hpaid, rfl, hu⟩ := hw
  have hseen : ∀ g ∈ s.children.take s.childDebt, g ∈ s.appeared := by
    cases hp : s.childrenPaid with
    | false =>
      intro g hg
      refine howed g (mem_append_right _ ?_)
      rw [hp]
      exact hg
    | true =>
      have hwhy : why = .tools := by
        by_contra hne
        rw [hu hne] at hp
        cases hp
      subst hwhy
      simp only [Aligned, hpc] at hal
      rcases hal hp with hz | hz <;> simp [hz]
  have hsub : (s.children.drop s.childDebt).Sublist s.children := drop_sublist _ _
  have hrest : LoopWorld.owed (s.commitChildren why s.childDebt) = [] := by
    simp [owed, LoopWorld.commitChildren, hpaid]
  refine ⟨?_, ?_, h.wellFormed, ?_, ?_, h.hostDebt_le, ?_, .inr ⟨hnil, ?_⟩, hnil⟩
  · intro g hg
    exact h.fresh g (((List.Sublist.refl _).append hsub).subset hg)
  · exact h.distinct.sublist (((List.Sublist.refl _).append hsub).map _)
  · intro hno
    show s.children.drop s.childDebt = []
    rw [h.noChildren hno, drop_nil]
  · intro g hg
    rcases mem_append.mp hg with hg | hg
    · exact h.acknowledged g hg
    · exact hseen g hg
  · intro hp
    cases hp
  · rw [hrest]
    exact fun g hg => absurd hg not_mem_nil

/-- With nothing pending and nothing to acknowledge the worker may be anywhere that asks for no
more. -/
theorem Inv.clear (hpc : s.pc = .clearing why) :
    (s.clearSteeringAcknowledgement why).Inv := by
  have hnil : s.guidance = [] := by
    have hw := h.worker
    rw [hpc] at hw
    exact hw
  set t := s.clearSteeringAcknowledgement why with ht
  have hz : t.pending.steeringToAcknowledge = 0 := rfl
  have htotal := t.debt_total
  have howed : t.owed = [] := owed_of_zero hz
  have hu : t.Unpaid := ⟨rfl, rfl⟩
  have hperm : t.guidance.Perm t.owed := by
    rw [howed]
    exact hnil ▸ List.Perm.refl _
  refine ⟨h.fresh, h.distinct, h.wellFormed, h.noChildren, h.acknowledged, ?_, ?_, .inl hperm, ?_⟩
  · intro _
    omega
  · intro _
    omega
  · cases why with
    | recovery steering =>
      cases steering with
      | true => exact ⟨hu, hperm⟩
      | false => trivial
    | turn => exact ⟨hu, rfl, hnil⟩
    | tools => trivial

theorem Inv.turnTools (hpc : s.pc = .tools) (results : List ToolCallResult) :
    Inv { s.setPendingInputs (results.map fun r => .plain (.completedTool r)) with
      pc := .readingHost .turn } := by
  have hw := h.worker
  rw [hpc] at hw
  obtain ⟨hu, hz, -⟩ := hw
  have hperm : (guidanceOf (results.map fun r => .plain (.completedTool r))).Perm s.owed := by
    rw [guidanceOf_plain, owed_of_zero hz]
  exact ⟨h.fresh, h.distinct, h.wellFormed, h.noChildren, h.acknowledged, h.hostDebt_le,
    h.childDebt_le, .inl hperm, hu, hperm, fun _ => hz⟩

/-- Changing the share is harmless while there is no debt. -/
theorem Inv.gotLate (hu : s.Unpaid) (hz : s.pending.steeringToAcknowledge = 0)
    (hnil : s.guidance = []) {host : AckQueue Guidance} (hentries : host.entries = s.host.entries)
    (hwf : host.WellFormed) {a b : ℕ} {late : List Guidance} (share : ℕ)
    (hb : LoopWorld.Batch { s with host := host } a b late)
    (hf : LoopWorld.fromHost { s with hostShare := share } (a + b) = a) :
    Inv { s with host := host, hostShare := share, pc := .gotLate late } := by
  set t : LoopWorld := { s with host := host, hostShare := share, pc := .gotLate late } with ht
  have htotal := t.debt_total
  have hz' : t.pending.steeringToAcknowledge = 0 := hz
  have howed : t.owed = [] := owed_of_zero hz
  refine ⟨?_, ?_, hwf, h.noChildren, h.acknowledged, fun _ => by omega, fun _ => by omega, ?_,
    hu, hz, hnil, a, b, hb, hf⟩
  · show ∀ g ∈ host.entries ++ s.children, g.serial < s.nextSerial
    rw [hentries]
    exact h.fresh
  · show ((host.entries ++ s.children).map (·.serial)).Nodup
    rw [hentries]
    exact h.distinct
  · rw [howed]
    exact .inl (hnil ▸ List.Perm.refl _)

theorem Inv.beforeAnswer (hpc : s.pc = .closingChildren)
    (hst : s.step .beforeAnswer = some s') : s'.Inv := by
  have hw := h.worker
  rw [hpc] at hw
  obtain ⟨hu, hz, hnil⟩ := hw
  have hclosing : s.WorkerInv .closingHost := ⟨hu, hz, hnil⟩
  have hnone := h.goto s.checkpoint s.store s.turnsUsed hclosing
  cases hawait : s.config.subagentsBeforeAnswer with
  | false =>
    simp only [LoopWorld.step, hpc, hawait, Bool.false_eq_true, if_false, isEmpty_nil,
      if_true, some.injEq] at hst
    exact hst ▸ hnone
  | true =>
    simp only [LoopWorld.step, hpc, hawait, if_true] at hst
    split at hst
    · rw [some.injEq] at hst
      exact hst ▸ hnone
    · next hne =>
      cases hst
      have hsub : s.config.loopSubagents = true := by
        by_contra hoff
        rw [h.noChildren (by simpa using hoff)] at hne
        exact hne rfl
      -- the batch is every report and nothing of the host
      have hbatch : s.Batch 0 s.children.length s.children :=
        ⟨by simp, Nat.zero_le _, le_refl _⟩
      exact h.gotLate hu hz hnil rfl h.wellFormed 0 hbatch (by simp [fromHost, hsub])

theorem Inv.closeHost (hpc : s.pc = .closingHost)
    (hst : s.step .closeHost = some s') : s'.Inv := by
  have hw := h.worker
  rw [hpc] at hw
  obtain ⟨hu, hz, hnil⟩ := hw
  simp only [LoopWorld.step, hpc, some.injEq] at hst
  subst hst
  have hfrom : ∀ n, LoopWorld.fromHost { s with hostShare := n } (n + 0) = n := by
    intro n
    unfold fromHost
    split <;> simp
  cases hc : s.config.loopCloseSteering with
  | true =>
    have hbatch : LoopWorld.Batch { s with host := s.host.reserve } s.host.entries.length 0
        s.host.entries := ⟨by simp, le_refl _, Nat.zero_le _⟩
    exact h.gotLate hu hz hnil s.host.reserve_entries (AckQueue.WellFormed.reserve _) _ hbatch
      (hfrom _)
  | false =>
    have hbatch : s.Batch 0 0 [] := ⟨by simp, Nat.zero_le _, Nat.zero_le _⟩
    exact h.gotLate hu hz hnil rfl h.wellFormed _ hbatch (hfrom 0)

theorem Inv.applyLate {late : List Guidance} (hpc : s.pc = .gotLate late)
    (hst : s.step .applyLate = some s') : s'.Inv := by
  have hw := h.worker
  rw [hpc] at hw
  obtain ⟨hu, -, -, a, b, hb, hf⟩ := hw
  simp only [LoopWorld.step, hpc] at hst
  split at hst
  · have hstop : s.WorkerInv .stopped := trivial
    rw [some.injEq] at hst
    exact hst ▸ h.goto _ _ _ hstop
  · cases hst
    exact h.continueWith hu hb hf (by rw [guidanceOf_steering]) _

end

theorem stopFrom_workerInv {pc next : LoopPc} (h : stopFrom pc = some next) :
    s.WorkerInv next := by
  have hnext : next = .stopped ∨ next = .done := by
    unfold stopFrom at h
    split at h <;> simp_all
  rcases hnext with rfl | rfl <;> trivial

/-- **Every aligned move keeps the invariant.** -/
theorem Inv.step {move : LoopMove} (h : s.Inv) (hal : s.Aligned move)
    (hst : s.step move = some s') : s'.Inv := by
  have hw := h.worker
  -- the moves of the other threads
  cases move with
  | hostEnqueue inputs =>
    rw [LoopWorld.step, some.injEq] at hst
    exact hst ▸ h.hostEnqueue inputs
  | hostDismiss key =>
    rw [LoopWorld.step, some.injEq] at hst
    exact hst ▸ h.hostDismiss _
  | childReport inputs =>
    rw [LoopWorld.step] at hst
    split at hst
    · next hsub =>
      rw [some.injEq] at hst
      have := h.childReport (inputs.map fun input => (input, some [])) hsub
      rw [length_map] at this
      exact hst ▸ this
    · cases hst
  | replaceStore snapshot =>
    rw [LoopWorld.step, some.injEq] at hst
    exact hst ▸ h.goto s.checkpoint snapshot s.turnsUsed h.worker
  | stop =>
    obtain ⟨pc, hpc, rfl⟩ := map_eq_some_iff.mp hst
    exact h.goto s.checkpoint s.store s.turnsUsed (stopFrom_workerInv hpc)
  | beforeAnswer =>
    cases hpc : s.pc with
    | closingChildren => exact h.beforeAnswer hpc hst
    | _ => simp [LoopWorld.step, hpc] at hst
  | closeHost =>
    cases hpc : s.pc with
    | closingHost => exact h.closeHost hpc hst
    | _ => simp [LoopWorld.step, hpc] at hst
  | applyLate =>
    cases hpc : s.pc with
    | gotLate late => exact h.applyLate hpc hst
    | _ => simp [LoopWorld.step, hpc] at hst
  | recoverTools committed =>
    simp only [LoopWorld.step] at hst
    split at hst
    · split at hst
      · have hdone : s.WorkerInv .done := trivial
        cases committed with
        | none =>
          rw [some.injEq] at hst
          exact hst ▸ h.goto s.checkpoint s.store s.turnsUsed hdone
        | some snapshot =>
          rw [some.injEq] at hst
          exact hst ▸ h.commitRecovery snapshot fun hne => absurd rfl hne
      · cases hst
    · cases hst
  | submit =>
    simp only [LoopWorld.step] at hst
    split at hst
    · next hpc =>
      split at hst
      · rw [some.injEq] at hst
        exact hst ▸ h.submit hpc
      · cases hst
    · cases hst
  | _ =>
    -- the moves of the worker that its position alone enables
    simp only [LoopWorld.step] at hst
    split at hst
    · next hpc =>
      cases hst
      rw [hpc] at hw
      first
        | exact h.readHost hpc hal
        | exact h.readChildren hpc
        | exact h.applySteering hpc
        | exact h.publishSubmissionRecovery hpc _ _
        | exact h.steeredTools hpc _
        | exact h.absorb hpc
        | exact h.commitHost hpc hal
        | exact h.commitChildren hpc hal
        | exact h.clear hpc
        | exact h.turnTools hpc _
        | exact h.goto _ _ _ (show s.WorkerInv .responded from hw)
        | exact h.goto _ _ _ (show s.WorkerInv (.recovering _) from hw)
        | exact h.goto _ _ _ (show s.WorkerInv (.acknowledgingHost .turn) from
            ⟨hw.2.1, hw.2.2, fun _ => hw.1⟩)
        | exact h.goto _ _ _ (show s.WorkerInv .done from trivial)
    · cases hst

theorem inv_init (config : SteeringConfig) (first : List TurnInput)
    (host : List (TurnInput × Option Text)) (children : List TurnInput) :
    (init config first host children).Inv := by
  set s := init config first host children with hs
  have hz : s.pending.steeringToAcknowledge = 0 := rfl
  have htotal := s.debt_total
  have hnil : s.guidance = [] := by
    show guidanceOf (first.map fun input => .plain (id input)) = []
    exact guidanceOf_plain id first
  have hperm : s.guidance.Perm s.owed := by rw [hnil, owed_of_zero hz]
  have hhost : (∀ g ∈ [] ++ numberFrom 0 host, g.serial < 0 + host.length) ∧
      (([] ++ numberFrom 0 host).map Guidance.serial).Nodup :=
    numberFrom_fresh host (fun _ hg => absurd hg not_mem_nil) nodup_nil
  obtain ⟨hfresh, hdistinct⟩ := numberFrom_fresh (children.map fun input => (input, some []))
    (by simpa using hhost.1) (by simpa using hhost.2)
  rw [length_map] at hfresh
  have hsub : (s.host.entries ++ s.children).Sublist (numberFrom 0 host ++
      numberFrom host.length (children.map fun input => (input, some []))) := by
    refine (List.Sublist.refl _).append ?_
    show (if config.loopSubagents then _ else []).Sublist _
    split
    · exact List.Sublist.refl _
    · exact nil_sublist _
  refine ⟨?_, ?_, Nat.zero_le _, ?_, ?_, fun _ => by omega, fun _ => by omega, .inl hperm,
    ⟨rfl, rfl⟩, hperm, fun _ => rfl⟩
  · intro g hg
    exact hfresh g (hsub.subset hg)
  · exact hdistinct.sublist (hsub.map _)
  · intro hoff
    have hoff' : config.loopSubagents = false := hoff
    show (if config.loopSubagents then _ else []) = []
    rw [hoff']
    rfl
  · exact fun g hg => absurd hg not_mem_nil

/-- **The invariant holds in every aligned run.** -/
theorem inv_of_reachable {config : SteeringConfig} {first : List TurnInput}
    {host : List (TurnInput × Option Text)} {children : List TurnInput}
    (h : Machine.ReachableBy LoopWorld.step Aligned (init config first host children) s) : s.Inv :=
  h.invariant (inv_init config first host children) fun _ _ _ hinv hal hst => hinv.step hal hst

end LoopWorld

end HaskellAgent
