import HaskellAgent.Loop.InputQueue
import HaskellAgent.Loop.SteeringInvariant

/-!
# Guidance is delivered once, and wakes the loop

The two promises the loop makes about steering: what it acknowledges was submitted or is in a
recovery checkpoint, with no input submitted twice; and a submission is preempted exactly when the
user has said something it does not contain.  Both hold of every aligned run, the second up to the
guidance that hides behind pending reports; both fail when guidance arrives while reports of the
children are pending.
-/

open List Option Machine

namespace HaskellAgent

open LoopWorld

variable {config : SteeringConfig} {first : List TurnInput}
  {host : List (TurnInput × Option Text)} {children : List TurnInput} {s : LoopWorld}

/-! ### Delivery -/

namespace LoopWorld

theorem Inv.sources_nodup (h : s.Inv) : (s.host.entries ++ s.children).Nodup :=
  List.Nodup.of_map _ h.distinct

/-- What is owed is distinct. -/
theorem Inv.owed_nodup (h : s.Inv) : s.owed.Nodup := by
  refine h.sources_nodup.sublist (List.Sublist.append ?_ ?_)
  · split
    · exact nil_sublist _
    · exact take_sublist _ _
  · split
    · exact nil_sublist _
    · exact take_sublist _ _

/-- Dropping a prefix of distinct elements is filtering it away. -/
theorem drop_eq_filter {α : Type*} [DecidableEq α] {l : List α} (hl : l.Nodup) (n : ℕ) :
    l.drop n = l.filter (fun x => x ∉ l.take n) := by
  have hdisjoint : (l.take n ++ l.drop n).Nodup := by
    rw [take_append_drop]
    exact hl
  rw [nodup_append] at hdisjoint
  conv_rhs =>
    rw [← take_append_drop n l, filter_append, take_append_drop]
  have hleft : (l.take n).filter (fun x => x ∉ l.take n) = [] := by
    simp [filter_eq_nil_iff]
  have hright : (l.drop n).filter (fun x => x ∉ l.take n) = l.drop n := by
    rw [filter_eq_self]
    intro x hx
    simpa using fun hx' => hdisjoint.2.2 x hx' x hx rfl
  rw [hleft, hright, nil_append]

/-- The drop of `continueSteeredLoop` removes exactly what is pending. -/
theorem Inv.drop_exact (h : s.Inv) {steering : List Guidance}
    (hpc : s.pc = .gotSteering .steered steering) :
    steering.drop s.pending.steeringToAcknowledge
      = steering.filter (fun g => g ∉ guidanceOf s.pending.inputs) := by
  have hw := h.worker
  rw [hpc] at hw
  obtain ⟨hu, hready, a, b, hb, -, hle, hle', hal⟩ := hw
  have htake := hb.take_total h hle hle' hal
  rw [← owed_of_unpaid hu] at htake
  have hnodup : steering.Nodup := by
    rw [hb.1]
    exact h.sources_nodup.sublist ((take_sublist _ _).append (take_sublist _ _))
  rw [drop_eq_filter hnodup, htake]
  refine filter_congr fun g _ => ?_
  have hmem : g ∈ guidanceOf s.pending.inputs ↔ g ∈ s.owed := hready.1.mem_iff
  simp [hmem]

end LoopWorld

/-- **Acknowledged guidance was submitted, and no submission repeats an input.**  In every aligned
run, each input acknowledged to the host or to the children has appeared in a submission or in a
committed recovery checkpoint before; no steering input is twice in a submission; and resuming
after a steering interrupt skips exactly the inputs that are still pending. -/
theorem guidance_delivered_once
    (h : ReachableBy LoopWorld.step Aligned (init config first host children) s) :
    (∀ g ∈ s.acknowledged, g ∈ s.appeared) ∧
      (s.pc = .submitting → (guidanceOf s.pending.inputs).Nodup) ∧
      (∀ steering, s.pc = .gotSteering .steered steering →
        steering.drop s.pending.steeringToAcknowledge
          = steering.filter (fun g => g ∉ guidanceOf s.pending.inputs)) := by
  have hinv := inv_of_reachable h
  refine ⟨hinv.acknowledged, ?_, fun steering hpc => hinv.drop_exact hpc⟩
  intro hpc
  have hw := hinv.worker
  rw [hpc] at hw
  exact hw.2.1.nodup_iff.mpr hinv.owed_nodup

/-- A loop with child agents that closes its steering before it answers. -/
def exampleConfig : SteeringConfig where
  loopSubagents := true
  loopMaxTurns := 8
  loopCloseSteering := true
  subagentsBeforeAnswer := true

/-- Read a batch and submit it. -/
def readAndSubmit : List LoopMove := [.readHost, .readChildren, .applySteering, .submit]

/-- Preempt a submission that published no recovery. -/
def preempt : List LoopMove := [.steer, .publish false none, .steeredTools []]

/-- Commit a response and acknowledge its inputs. -/
def commitTurn : List LoopMove :=
  [.respond 1, .absorb, .acknowledge, .commitHost, .commitChildren, .clear]

/-- Guidance preempts a submission of guidance; a report joins the second one. -/
def preemptedRun : List LoopMove :=
  readAndSubmit ++ [.hostEnqueue [(.userMessage ['b'], none)], .childReport [.userMessage ['c']]] ++
    preempt ++ readAndSubmit ++ commitTurn

theorem guidance_delivered_in_preemptedRun :
    ∃ s, Machine.run (guarded Aligned LoopWorld.step)
        (init exampleConfig [] [(.userMessage ['a'], none)] []) preemptedRun = some s ∧
      s.acknowledged.length = 3 ∧ ∀ g ∈ s.acknowledged, g ∈ s.appeared := by
  obtain ⟨s, hs⟩ := isSome_iff_exists.mp
    (show (Machine.run (guarded Aligned LoopWorld.step)
      (init exampleConfig [] [(.userMessage ['a'], none)] []) preemptedRun).isSome = true from rfl)
  refine ⟨s, hs, ?_, (guidance_delivered_once (Machine.reachableBy_of_run hs)).1⟩
  cases hs
  rfl

/-- A report is pending when two pieces of guidance arrive and preempt its submission. -/
def lostRun : List LoopMove :=
  readAndSubmit ++ [.hostEnqueue [(.userMessage ['a'], none), (.userMessage ['b'], none)]] ++
    preempt ++ readAndSubmit

/-- **Guidance behind a pending report is lost.**  The second submission contains the report twice
and the first guidance not at all, and the turn then acknowledges that guidance. -/
theorem guidance_lost_behind_report :
    (∃ s, Reachable LoopWorld.step (init exampleConfig [] [] [.userMessage ['c']]) s ∧
      s.pc = .submitting ∧ ¬ (guidanceOf s.pending.inputs).Nodup) ∧
    (∃ s, Reachable LoopWorld.step (init exampleConfig [] [] [.userMessage ['c']]) s ∧
      ∃ g ∈ s.acknowledged, g ∉ s.appeared) := by
  constructor
  · obtain ⟨s, hs⟩ := isSome_iff_exists.mp
      (show (Machine.run LoopWorld.step (init exampleConfig [] [] [.userMessage ['c']])
        lostRun).isSome = true from rfl)
    refine ⟨s, reachable_of_run hs, ?_⟩
    cases hs
    decide
  · obtain ⟨s, hs⟩ := isSome_iff_exists.mp
      (show (Machine.run LoopWorld.step (init exampleConfig [] [] [.userMessage ['c']])
        (lostRun ++ commitTurn)).isSome = true from rfl)
    refine ⟨s, reachable_of_run hs, ?_⟩
    cases hs
    decide

/-! ### Preemption -/

/-- `queue` is the host's queue, as far as its readers can tell. -/
def Backs (queue : InputQueueState Guidance) (s : LoopWorld) : Prop :=
  queue.view.entries = s.host.entries.map (fun g => (g, g.backgroundKey))

/-- The wait of a submission is exact: it wakes the loop if and only if the host's queue holds
guidance of the user that the submission does not contain. -/
def WaitExact (queue : InputQueueState Guidance) (s : LoopWorld) : Prop :=
  awaitUserSteeringAfter queue s.pending.steeringToAcknowledge = true ↔
    ∃ g ∈ s.host.entries, g.isUser = true ∧ .steering g ∉ s.pending.inputs

/-- Behind the submitted guidance, as many entries of the host's queue as there are pending reports
hold nothing of the user, unless something of the user follows them. -/
def NothingHidden (s : LoopWorld) : Prop :=
  (∀ g ∈ (s.host.entries.drop s.hostDebt).take s.childDebt, g.isUser = false) ∨
    ∃ g ∈ s.host.entries.drop s.pending.steeringToAcknowledge, g.isUser = true

theorem mem_guidanceOf {inputs : List LoopInput} {g : Guidance} :
    g ∈ guidanceOf inputs ↔ .steering g ∈ inputs := by
  unfold guidanceOf
  rw [mem_filterMap]
  constructor
  · rintro ⟨input, hmem, heq⟩
    cases input with
    | plain _ => cases heq
    | steering g' =>
      rw [some.injEq] at heq
      exact heq ▸ hmem
  · intro hmem
    exact ⟨_, hmem, rfl⟩

theorem Backs.await_iff {queue : InputQueueState Guidance} (h : Backs queue s) (count : ℕ) :
    awaitUserSteeringAfter queue count = true ↔
      ∃ g ∈ s.host.entries.drop count, g.isUser = true := by
  rw [awaitUserSteeringAfter_eq, h, ← map_drop, List.any_map, List.any_eq_true]
  rfl

/-- The guidance a submission lacks is the guidance behind the host's share of it. -/
theorem LoopWorld.Inv.unsubmitted_iff (h : s.Inv) (hpc : s.pc = .submitting) :
    (∃ g ∈ s.host.entries, g.isUser = true ∧ .steering g ∉ s.pending.inputs) ↔
      ∃ g ∈ s.host.entries.drop s.hostDebt, g.isUser = true := by
  have hw := h.worker
  rw [hpc] at hw
  obtain ⟨hu, hperm, -⟩ := hw
  rw [owed_of_unpaid hu] at hperm
  have hnodup := h.sources_nodup
  have hmem : ∀ g ∈ s.host.entries,
      (.steering g ∈ s.pending.inputs ↔ g ∈ s.host.entries.take s.hostDebt) := by
    intro g hg
    rw [← mem_guidanceOf]
    have hiff : g ∈ guidanceOf s.pending.inputs ↔
        g ∈ s.host.entries.take s.hostDebt ++ s.children.take s.childDebt := hperm.mem_iff
    rw [hiff, mem_append]
    -- an entry of the host is no report
    refine ⟨fun hor => hor.resolve_right fun hc => ?_, .inl⟩
    exact (nodup_append.mp hnodup).2.2 g hg g (mem_of_mem_take hc) rfl
  have hhost := (nodup_append.mp hnodup).1
  rw [← take_append_drop s.hostDebt s.host.entries, nodup_append] at hhost
  constructor
  · rintro ⟨g, hg, huser, hnot⟩
    rw [hmem g hg] at hnot
    have hsplit : g ∈ s.host.entries.take s.hostDebt ++ s.host.entries.drop s.hostDebt := by
      rw [take_append_drop]
      exact hg
    exact ⟨g, (mem_append.mp hsplit).resolve_left hnot, huser⟩
  · rintro ⟨g, hg, huser⟩
    have hin := mem_of_mem_drop hg
    refine ⟨g, hin, huser, ?_⟩
    rw [hmem g hin]
    exact fun htake => hhost.2.2 g htake g hg rfl

/-- **When the wait of a submission is exact.**  In every aligned run and every state in a
submission: exactly when no guidance of the user hides behind the pending reports. -/
theorem wait_exact_iff {queue : InputQueueState Guidance}
    (h : ReachableBy LoopWorld.step Aligned (init config first host children) s)
    (hpc : s.pc = .submitting) (hq : Backs queue s) : WaitExact queue s ↔ NothingHidden s := by
  have hinv := inv_of_reachable h
  unfold WaitExact NothingHidden
  rw [hq.await_iff, hinv.unsubmitted_iff hpc]
  -- the entries behind the host's share: those the count skips, then those the wait looks at
  have hsplit : s.host.entries.drop s.hostDebt
      = (s.host.entries.drop s.hostDebt).take s.childDebt ++
        s.host.entries.drop s.pending.steeringToAcknowledge := by
    rw [← s.debt_total, ← drop_drop, take_append_drop]
  constructor
  · intro hexact
    by_cases hbehind : ∃ g ∈ s.host.entries.drop s.pending.steeringToAcknowledge, g.isUser = true
    · exact .inr hbehind
    · left
      intro g hg
      by_contra huser
      refine hbehind (hexact.mpr ⟨g, ?_, by simpa using huser⟩)
      exact mem_of_mem_take hg
  · intro hcond
    constructor
    · rintro ⟨g, hg, huser⟩
      rw [hsplit]
      exact ⟨g, mem_append_right _ hg, huser⟩
    · rintro ⟨g, hg, huser⟩
      rcases hcond with hclear | hbehind
      · rw [hsplit, mem_append] at hg
        rcases hg with hg | hg
        · rw [hclear g hg] at huser
          cases huser
        · exact ⟨g, hg, huser⟩
      · exact hbehind

/-- The host's queue after it accepted guidance. -/
def queueOf (gs : List Guidance) : InputQueueState Guidance :=
  (enqueueSteeringInputs (fun g => logicalTurnInputBytes g.input) emptySteeringState gs).2

/-- A report is submitted with the guidance there is, and `late` more pieces arrive. -/
def waitingRun (late : ℕ) : List LoopMove :=
  [.childReport [.userMessage ['c']]] ++ readAndSubmit ++
    [.hostEnqueue (List.replicate late (.userMessage ['b'], none))]

theorem wait_exact_in_waitingRun :
    ∃ s, Machine.run (guarded Aligned LoopWorld.step)
        (init exampleConfig [] [(.userMessage ['a'], none)] []) (waitingRun 2) = some s ∧
      NothingHidden s ∧ WaitExact (queueOf s.host.entries) s := by
  obtain ⟨s, hs⟩ := isSome_iff_exists.mp
    (show (Machine.run (guarded Aligned LoopWorld.step)
      (init exampleConfig [] [(.userMessage ['a'], none)] []) (waitingRun 2)).isSome = true
      from rfl)
  have hreach := Machine.reachableBy_of_run hs
  have hpc : s.pc = .submitting := by cases hs; rfl
  have hq : Backs (queueOf s.host.entries) s := by cases hs; rfl
  have hclear : NothingHidden s := by cases hs; exact .inr (by decide)
  exact ⟨s, hs, hclear, (wait_exact_iff hreach hpc hq).mpr hclear⟩

/-- **Guidance behind a pending report does not wake the loop.** -/
theorem wait_misses_guidance :
    ∃ s, Reachable LoopWorld.step
        (init exampleConfig [] [(.userMessage ['a'], none)] []) s ∧
      s.pc = .submitting ∧ Backs (queueOf s.host.entries) s ∧
      ¬ WaitExact (queueOf s.host.entries) s := by
  obtain ⟨s, hs⟩ := isSome_iff_exists.mp
    (show (Machine.run LoopWorld.step
      (init exampleConfig [] [(.userMessage ['a'], none)] []) (waitingRun 1)).isSome = true
      from rfl)
  refine ⟨s, reachable_of_run hs, ?_⟩
  cases hs
  refine ⟨rfl, rfl, ?_⟩
  unfold WaitExact
  decide

end HaskellAgent
