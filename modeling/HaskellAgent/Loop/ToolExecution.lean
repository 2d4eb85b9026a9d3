import HaskellAgent.Lib.Machine
import HaskellAgent.Loop.ToolRecovery
import HaskellAgent.Tools.Scheduling

/-!
# Tool admission and scheduling

Calls are admitted in any order by the provider's stream and by the loop, and carry their admission
number.  One scheduler takes them in that order, prepares each alone, and starts a worker for it;
a worker waits until no earlier call with a conflicting plan is scheduled; a monitor completes the
request when the worker has ended.  `ToolWorld.step` interleaves all of them with cancellation.

Approval, planning and the tools themselves are arbitrary, so their results come with the events.
The plan of a request that is not approved is `unconstrained`, as in `schedulingPlanForPrepared`.
-/

open List Option Function Machine

namespace HaskellAgent

inductive ToolApproval
  | granted
  | denied (message : Text)
  | rejected
  deriving DecidableEq

/-- An admitted call; its admission number is its place in the list of all of them. -/
structure AdmittedRecord where
  admittedCall : ToolCall
  /-- The variable the waiters of the call read; `none` while it is empty. -/
  admittedResult : Option (Option ToolCallResult)
  admittedTrustedResult : Option ToolCallResult

section

variable (π : Type)

/-- Where the scheduler is with the request it took. -/
inductive SchedulerPc
  | ready
  /-- Before the first check for cancellation. -/
  | taken (seq : ℕ)
  /-- Approving and planning, in a race with cancellation. -/
  | preparing (seq : ℕ)
  /-- Before the second check. -/
  | prepared (seq : ℕ) (approval : ToolApproval) (plan : ToolSchedulingPlan π)
  | scheduling (seq : ℕ) (approval : ToolApproval) (plan : ToolSchedulingPlan π)
  /-- The plan is published; the worker is not started yet. -/
  | launching (seq : ℕ) (approval : ToolApproval) (plan : ToolSchedulingPlan π)
  | stopped

/-- Where a worker is. -/
inductive WorkerPc
  /-- Before the barrier. -/
  | waiting
  /-- Behind it, before the check for cancellation. -/
  | passed
  | inHandler
  /-- The handler returned and its result is recorded; the event is being delivered. -/
  | recorded (result : ToolCallResult)
  /-- The worker has ended with a result, without one, or with an exception. -/
  | finished (outcome : Option (Option ToolCallResult))
  /-- Its monitor has completed the request. -/
  | completed
  deriving DecidableEq

structure ToolWorker where
  approval : ToolApproval
  plan : ToolSchedulingPlan π
  pc : WorkerPc

/-- The beginning or the end of a call's execution. -/
inductive Activity
  | enter (seq : ℕ)
  | leave (seq : ℕ)
  deriving DecidableEq

/-- The tool scope with its threads and the history of executions. -/
structure ToolWorld where
  calls : List AdmittedRecord
  asyncToolRequests : List ℕ
  asyncToolScheduled : ℕ → Option (ToolSchedulingPlan π)
  asyncToolOutstanding : ℤ
  asyncToolCompleted : List ToolCallResult
  asyncToolFailure : Bool
  asyncToolAcknowledged : List Text
  asyncToolCommittedCalls : Text → Option ToolCall
  cancelled : Bool
  scheduler : SchedulerPc π
  workers : ℕ → Option (ToolWorker π)
  log : List Activity

end

inductive ToolEvent (π : Type)
  /-- A call is announced or submitted, for the first time or again. -/
  | admitCall (call : ToolCall)
  | acknowledge (results : List ToolCallResult) (calls : List ToolCall)
  | setCancelled (cancelled : Bool)
  | take
  | checkBefore
  | prepare (approval : ToolApproval) (plan : ToolSchedulingPlan π)
  | cancelPreparing
  | checkAfter
  | publish
  | launch
  | pass (seq : ℕ)
  | enter (seq : ℕ)
  | record (seq : ℕ) (output : Text) (images : List ToolResultImage) (files : List ToolResultFile)
      (outcome : Option ToolOutcome)
  | deliver (seq : ℕ)
  /-- The worker fails or is killed. -/
  | crash (seq : ℕ)
  /-- Cancellation wins the worker's race, which ends the handler first. -/
  | interrupt (seq : ℕ)
  | complete (seq : ℕ)
  /-- The scheduler fails or the scope is left. -/
  | stop

namespace ToolWorld

variable {π : Type} [DecidableEq π]

/-- `newToolScope`. -/
def init : ToolWorld π where
  calls := []
  asyncToolRequests := []
  asyncToolScheduled := fun _ => none
  asyncToolOutstanding := 0
  asyncToolCompleted := []
  asyncToolFailure := false
  asyncToolAcknowledged := []
  asyncToolCommittedCalls := fun _ => none
  cancelled := false
  scheduler := .ready
  workers := fun _ => none
  log := []

/-- `admitToolCall`: an id is admitted once; announcing it again with the same call does nothing,
with another call it is an error, which changes nothing either. -/
def admitToolCall (s : ToolWorld π) (call : ToolCall) : ToolWorld π :=
  if s.calls.any fun record => record.admittedCall.callId == call.callId then s
  else
    { s with
      calls := s.calls ++ [⟨call, none, none⟩]
      asyncToolOutstanding :=
        if call.mode = .async then s.asyncToolOutstanding + 1 else s.asyncToolOutstanding
      asyncToolRequests := s.asyncToolRequests ++ [s.calls.length] }

def acknowledgeTools (s : ToolWorld π) (results : List ToolCallResult) (calls : List ToolCall) :
    ToolWorld π :=
  { s with
    asyncToolAcknowledged := results.map (·.callId) ++ s.asyncToolAcknowledged
    asyncToolCommittedCalls := fun callId =>
      -- the last call of the list wins, and the list wins over what was committed before
      (calls.reverse.find? fun call => call.callId == callId).or
        (s.asyncToolCommittedCalls callId) }

/-- The barrier of `runToolWorker`: no earlier scheduled plan conflicts. -/
def unobstructed (sys : PathSystem π) (s : ToolWorld π) (seq : ℕ) (plan : ToolSchedulingPlan π) :
    Bool :=
  (List.range seq).all fun earlier =>
    match s.asyncToolScheduled earlier with
    | none => true
    | some earlierPlan => !schedulingPlansConflict sys earlierPlan plan

/-- Set the variable that the waiters of a call read; `none` where it is full, and the transaction
would block. -/
def putResult (s : ToolWorld π) (seq : ℕ) (result : Option ToolCallResult) :
    Option (ToolWorld π) :=
  match s.calls[seq]? with
  | some ⟨call, none, trusted⟩ =>
      some { s with
        calls := s.calls.set seq ⟨call, some result, trusted⟩
        asyncToolOutstanding :=
          if call.mode = .async then s.asyncToolOutstanding - 1 else s.asyncToolOutstanding
        asyncToolCompleted :=
          if call.mode = .async then s.asyncToolCompleted ++ result.toList
          else s.asyncToolCompleted }
  | _ => none

/-- `completeToolRequest`. -/
def completeToolRequest (s : ToolWorld π) (seq : ℕ)
    (outcome : Option (Option ToolCallResult)) : Option (ToolWorld π) :=
  let removed :=
    { s with asyncToolScheduled := Function.update s.asyncToolScheduled seq none }
  match outcome with
  | none => some { removed with asyncToolFailure := true }
  | some result => removed.putResult seq result

def setWorker (s : ToolWorld π) (seq : ℕ) (worker : ToolWorker π) : ToolWorld π :=
  { s with workers := Function.update s.workers seq (some worker) }

def setTrustedResult (s : ToolWorld π) (seq : ℕ) (result : ToolCallResult) : ToolWorld π :=
  { s with calls := s.calls.modify seq fun record =>
      { record with admittedTrustedResult := some result } }

/-- The result of a worker: a call that was not approved is denied without running it. -/
def workerResult (call : ToolCall) (approval : ToolApproval) (output : Text)
    (images : List ToolResultImage) (files : List ToolResultFile)
    (outcome : Option ToolOutcome) : ToolCallResult :=
  let denied (message : Text) : ToolCallResult :=
    { callId := call.callId, output := message, callKind := call.callKind
      toolResultMode := call.mode, toolResultImages := [], toolResultFiles := []
      toolResultOutcome := some .denied }
  match approval with
  | .denied message => denied message
  | .rejected => denied "Tool call rejected by user.".toList
  | .granted =>
      { callId := call.callId, output := output, callKind := call.callKind
        toolResultMode := call.mode, toolResultImages := images, toolResultFiles := files
        toolResultOutcome := outcome }

/-- The plan of a prepared request. -/
def planFor (approval : ToolApproval) (plan : ToolSchedulingPlan π) : ToolSchedulingPlan π :=
  match approval with
  | .granted => plan
  | .denied _ => .unconstrained
  | .rejected => .unconstrained

/-- The worker ends. -/
def finish (s : ToolWorld π) (seq : ℕ) (worker : ToolWorker π)
    (outcome : Option (Option ToolCallResult)) : ToolWorld π :=
  { s.setWorker seq { worker with pc := .finished outcome } with
    log :=
      match worker.pc with
      | .inHandler | .recorded _ => s.log ++ [.leave seq]
      | _ => s.log }

variable (sys : PathSystem π)

/-- One step of one of the threads. -/
def step (s : ToolWorld π) : ToolEvent π → Option (ToolWorld π)
  | .admitCall call => some (s.admitToolCall call)
  | .acknowledge results calls => some (s.acknowledgeTools results calls)
  | .setCancelled cancelled => some { s with cancelled := cancelled }
  | .take =>
      match s.scheduler, s.asyncToolRequests with
      | .ready, seq :: rest => some { s with asyncToolRequests := rest, scheduler := .taken seq }
      | _, _ => none
  | .checkBefore =>
      match s.scheduler with
      | .taken seq =>
          if s.cancelled then
            (s.completeToolRequest seq (some none)).map fun s => { s with scheduler := .ready }
          else some { s with scheduler := .preparing seq }
      | _ => none
  | .prepare approval plan =>
      match s.scheduler with
      | .preparing seq =>
          some { s with scheduler := .prepared seq approval (planFor approval plan) }
      | _ => none
  | .cancelPreparing =>
      match s.scheduler with
      | .preparing seq =>
          if s.cancelled then
            (s.completeToolRequest seq (some none)).map fun s => { s with scheduler := .ready }
          else none
      | _ => none
  | .checkAfter =>
      match s.scheduler with
      | .prepared seq approval plan =>
          if s.cancelled then
            (s.completeToolRequest seq (some none)).map fun s => { s with scheduler := .ready }
          else some { s with scheduler := .scheduling seq approval plan }
      | _ => none
  | .publish =>
      match s.scheduler with
      | .scheduling seq approval plan =>
          some { s with
            asyncToolScheduled := Function.update s.asyncToolScheduled seq (some plan)
            scheduler := .launching seq approval plan }
      | _ => none
  | .launch =>
      match s.scheduler with
      | .launching seq approval plan =>
          some { s.setWorker seq ⟨approval, plan, .waiting⟩ with scheduler := .ready }
      | _ => none
  | .pass seq =>
      match s.workers seq with
      | some ⟨approval, plan, .waiting⟩ =>
          if s.unobstructed sys seq plan then some (s.setWorker seq ⟨approval, plan, .passed⟩)
          else none
      | _ => none
  | .enter seq =>
      match s.workers seq with
      | some ⟨approval, plan, .passed⟩ =>
          if s.cancelled then some (s.finish seq ⟨approval, plan, .passed⟩ (some none))
          else
            some { s.setWorker seq ⟨approval, plan, .inHandler⟩ with
              log := s.log ++ [.enter seq] }
      | _ => none
  | .record seq output images files outcome =>
      match s.workers seq, s.calls[seq]? with
      | some ⟨approval, plan, .inHandler⟩, some record =>
          let result := workerResult record.admittedCall approval output images files outcome
          some ((s.setTrustedResult seq result).setWorker seq ⟨approval, plan, .recorded result⟩)
      | _, _ => none
  | .deliver seq =>
      match s.workers seq with
      | some ⟨approval, plan, .recorded result⟩ =>
          some (s.finish seq ⟨approval, plan, .recorded result⟩ (some (some result)))
      | _ => none
  | .crash seq =>
      match s.workers seq with
      | some ⟨_, _, .finished _⟩ => none
      | some ⟨_, _, .completed⟩ => none
      | some worker => some (s.finish seq worker none)
      | none => none
  | .interrupt seq =>
      if s.cancelled then
        match s.workers seq with
        | some ⟨approval, plan, .passed⟩ =>
            some (s.finish seq ⟨approval, plan, .passed⟩ (some none))
        | some ⟨approval, plan, .inHandler⟩ =>
            some (s.finish seq ⟨approval, plan, .inHandler⟩ (some none))
        | some ⟨approval, plan, .recorded result⟩ =>
            some (s.finish seq ⟨approval, plan, .recorded result⟩ (some none))
        | _ => none
      else none
  | .complete seq =>
      match s.workers seq with
      | some ⟨approval, plan, .finished outcome⟩ =>
          (s.completeToolRequest seq outcome).map fun s =>
            s.setWorker seq ⟨approval, plan, .completed⟩
      | _ => none
  | .stop => some { s with scheduler := .stopped }

/-! ### The invariant of the workers -/

end ToolWorld

namespace WorkerPc

/-- Behind the barrier and not ended. -/
def BehindBarrier : WorkerPc → Prop
  | .passed | .inHandler | .recorded _ => True
  | _ => False

/-- The worker thread has ended. -/
def Ended : WorkerPc → Prop
  | .finished _ | .completed => True
  | _ => False

/-- Between `enter` and `leave`. -/
def Executing : WorkerPc → Prop
  | .inHandler | .recorded _ => True
  | _ => False

end WorkerPc

/-- The calls entered, in order. -/
def enters (log : List Activity) : List ℕ :=
  log.filterMap fun
    | .enter seq => some seq
    | .leave _ => none

theorem mem_enters {log : List Activity} {seq : ℕ} : seq ∈ enters log ↔ .enter seq ∈ log := by
  unfold enters
  rw [mem_filterMap]
  constructor
  · rintro ⟨activity, hmem, heq⟩
    cases activity with
    | enter i =>
      rw [some.injEq] at heq
      exact heq ▸ hmem
    | leave i => cases heq
  · intro hmem
    exact ⟨_, hmem, rfl⟩

/-- What the barrier, the published plans and the history say of the workers. -/
structure WorkersInv {π : Type} [DecidableEq π] (sys : PathSystem π)
    (workers : ℕ → Option (ToolWorker π)) (scheduled : ℕ → Option (ToolSchedulingPlan π))
    (log : List Activity) : Prop where
  /-- The plan of a worker is published until the worker has ended. -/
  published : ∀ i w, workers i = some w → ¬ w.pc.Ended → scheduled i = some w.plan
  /-- Behind the barrier, every earlier conflicting worker has ended. -/
  settled : ∀ j wj, workers j = some wj → (wj.pc.BehindBarrier ∨ .enter j ∈ log) →
    ∀ i < j, ∀ wi, workers i = some wi →
      schedulingPlansConflict sys wi.plan wj.plan = true → wi.pc.Ended
  entered : ∀ i, .enter i ∈ log → ∃ w, workers i = some w ∧ (w.pc.Executing ∨ w.pc.Ended)
  left : ∀ i w, .enter i ∈ log → workers i = some w → w.pc.Ended → .leave i ∈ log
  once : (enters log).Nodup
  ordered : ∀ before j after, log = before ++ .enter j :: after →
    ∀ i < j, ∀ wi wj, workers i = some wi → workers j = some wj →
      schedulingPlansConflict sys wi.plan wj.plan = true → .enter i ∈ log → .leave i ∈ before

namespace WorkersInv

variable {π : Type} [DecidableEq π] {sys : PathSystem π} {workers : ℕ → Option (ToolWorker π)}
  {scheduled : ℕ → Option (ToolSchedulingPlan π)} {log : List Activity} {seq : ℕ}

/-- Publishing or withdrawing the plan of a request that has no worker. -/
theorem schedule (h : WorkersInv sys workers scheduled log) (hnone : workers seq = none)
    (plan : Option (ToolSchedulingPlan π)) :
    WorkersInv sys workers (Function.update scheduled seq plan) log := by
  refine ⟨?_, h.settled, h.entered, h.left, h.once, h.ordered⟩
  intro i w hw hended
  have hne : i ≠ seq := by
    rintro rfl
    rw [hnone] at hw
    cases hw
  rw [update_of_ne hne]
  exact h.published i w hw hended

/-- A worker starts behind all others. -/
theorem launch (h : WorkersInv sys workers scheduled log) {approval : ToolApproval}
    {plan : ToolSchedulingPlan π} (hlast : ∀ i w, workers i = some w → i < seq)
    (hplan : scheduled seq = some plan) :
    WorkersInv sys (Function.update workers seq (some ⟨approval, plan, .waiting⟩)) scheduled
      log := by
  have hnone : ∀ i ≥ seq, workers i = none := by
    intro i hi
    cases hw : workers i with
    | none => rfl
    | some w => exact absurd (hlast i w hw) (by omega)
  have hnot : .enter seq ∉ log := by
    intro hmem
    obtain ⟨w, hw, -⟩ := h.entered seq hmem
    rw [hnone seq (le_refl _)] at hw
    cases hw
  refine ⟨?_, ?_, ?_, ?_, h.once, ?_⟩
  · intro i w hw hended
    rcases eq_or_ne i seq with rfl | hne
    · rw [update_self, some.injEq] at hw
      rw [← hw]
      exact hplan
    · rw [update_of_ne hne] at hw
      exact h.published i w hw hended
  · intro j wj hwj hbehind i hij wi hwi hconf
    rcases eq_or_ne j seq with rfl | hne
    · -- the new worker is before its barrier
      rw [update_self, some.injEq] at hwj
      subst hwj
      exact absurd hbehind (by rintro (hb | hb); exacts [hb, hnot hb])
    · rw [update_of_ne hne] at hwj
      have hi : i ≠ seq := by
        have := hlast j wj hwj
        omega
      rw [update_of_ne hi] at hwi
      exact h.settled j wj hwj hbehind i hij wi hwi hconf
  · intro i hmem
    have hne : i ≠ seq := fun heq => hnot (heq ▸ hmem)
    rw [update_of_ne hne]
    exact h.entered i hmem
  · intro i w hmem hw hended
    have hne : i ≠ seq := fun heq => hnot (heq ▸ hmem)
    rw [update_of_ne hne] at hw
    exact h.left i w hmem hw hended
  · intro before j after hlog i hij wi wj hwi hwj hconf hmem
    have hj : j ≠ seq := by
      rintro rfl
      exact hnot (hlog ▸ mem_append_right _ mem_cons_self)
    have hi : i ≠ seq := fun heq => hnot (heq ▸ hmem)
    rw [update_of_ne hi] at hwi
    rw [update_of_ne hj] at hwj
    exact h.ordered before j after hlog i hij wi wj hwi hwj hconf hmem

omit [DecidableEq π] in
/-- Replacing a worker by one with the same plan does not disturb what the others conflict with. -/
theorem plan_update {w w' : ToolWorker π} (hw : workers seq = some w) (hplan : w'.plan = w.plan)
    {i : ℕ} {wi : ToolWorker π} (hwi : Function.update workers seq (some w') i = some wi) :
    ∃ v, workers i = some v ∧ v.plan = wi.plan ∧ (i ≠ seq → v = wi) ∧ (i = seq → wi = w') := by
  rcases eq_or_ne i seq with rfl | hne
  · rw [update_self, some.injEq] at hwi
    exact ⟨w, hw, by rw [← hwi, hplan], fun h => absurd rfl h, fun _ => hwi.symm⟩
  · rw [update_of_ne hne] at hwi
    exact ⟨wi, hwi, rfl, fun _ => rfl, fun h => absurd h hne⟩

/-- A worker moves without entering or ending. -/
theorem move (h : WorkersInv sys workers scheduled log) {w u : ToolWorker π}
    {scheduled' : ℕ → Option (ToolSchedulingPlan π)} (hw : workers seq = some w)
    (hplan : u.plan = w.plan) (hended : w.pc.Ended ↔ u.pc.Ended)
    (hexec : w.pc.Executing → u.pc.Executing)
    (hothers : ∀ i ≠ seq, scheduled' i = scheduled i)
    (hself : ¬ u.pc.Ended → scheduled' seq = scheduled seq)
    (hsettled : u.pc.BehindBarrier → ∀ i < seq, ∀ wi, workers i = some wi →
      schedulingPlansConflict sys wi.plan w.plan = true → wi.pc.Ended) :
    WorkersInv sys (Function.update workers seq (some u)) scheduled' log := by
  refine ⟨?_, ?_, ?_, ?_, h.once, ?_⟩
  · intro i wi hwi hlive
    obtain ⟨v, hv, hvplan, hne, heq⟩ := plan_update hw hplan hwi
    by_cases hi : i = seq
    · subst hi
      have hwi' := heq rfl
      subst hwi'
      rw [hself hlive, h.published i w hw (fun he => hlive (hended.mp he)), hplan]
    · rw [hothers i hi, h.published i v hv (by rw [hne hi]; exact hlive), hvplan]
  · intro j wj hwj hbehind i hij wi hwi hconf
    obtain ⟨v, hv, hvplan, hvne, hveq⟩ := plan_update hw hplan hwj
    obtain ⟨u, hu, huplan, hune, hueq⟩ := plan_update hw hplan hwi
    -- the earlier worker ended before the move
    have hbefore : u.pc.Ended := by
      rw [← huplan, ← hvplan] at hconf
      by_cases hj : j = seq
      · subst hj
        rw [hw, some.injEq] at hv
        subst hv
        have hwj' := hveq rfl
        subst hwj'
        rcases hbehind with hb | hlog
        · exact hsettled hb i hij u hu hconf
        · exact h.settled j w hw (.inr hlog) i hij u hu hconf
      · have hv' := hvne hj
        subst hv'
        exact h.settled j v hv hbehind i hij u hu hconf
    by_cases hi : i = seq
    · subst hi
      rw [hw, some.injEq] at hu
      subst hu
      rw [hueq rfl]
      exact hended.mp hbefore
    · rw [← hune hi]
      exact hbefore
  · intro i hmem
    obtain ⟨v, hv, hstate⟩ := h.entered i hmem
    by_cases hi : i = seq
    · subst hi
      rw [hw, some.injEq] at hv
      subst hv
      exact ⟨u, update_self .., hstate.imp hexec hended.mp⟩
    · exact ⟨v, by rw [update_of_ne hi]; exact hv, hstate⟩
  · intro i wi hmem hwi hend
    obtain ⟨v, hv, -, hne, heq⟩ := plan_update hw hplan hwi
    by_cases hi : i = seq
    · subst hi
      rw [heq rfl] at hend
      exact h.left i w hmem hw (hended.mpr hend)
    · have hv' := hne hi
      subst hv'
      exact h.left i v hmem hv hend
  · intro before j after hlog i hij wi wj hwi hwj hconf hmem
    obtain ⟨v, hv, hvplan, -⟩ := plan_update hw hplan hwj
    obtain ⟨u, hu, huplan, -⟩ := plan_update hw hplan hwi
    rw [← huplan, ← hvplan] at hconf
    exact h.ordered before j after hlog i hij u v hu hv hconf hmem

/-- A snoc list split in the middle: the middle element is the last one, or before it. -/
theorem snoc_eq_append_cons {α : Type*} {l before after : List α} {a b : α}
    (h : l ++ [a] = before ++ b :: after) :
    (before = l ∧ b = a ∧ after = []) ∨ ∃ rest, after = rest ++ [a] ∧ l = before ++ b :: rest := by
  rcases eq_nil_or_concat after with rfl | ⟨rest, last, rfl⟩
  · left
    have := append_inj' h rfl
    exact ⟨this.1.symm, (List.cons.inj this.2).1.symm, rfl⟩
  · right
    rw [concat_eq_append, ← cons_append, ← append_assoc] at h
    have := append_inj' h rfl
    exact ⟨rest, by rw [concat_eq_append, (List.cons.inj this.2).1], this.1⟩

/-- A worker behind the barrier enters its handler. -/
theorem enter (h : WorkersInv sys workers scheduled log) {approval : ToolApproval}
    {plan : ToolSchedulingPlan π} (hw : workers seq = some ⟨approval, plan, .passed⟩) :
    WorkersInv sys (Function.update workers seq (some ⟨approval, plan, .inHandler⟩)) scheduled
      (log ++ [.enter seq]) := by
  have hnot : .enter seq ∉ log := by
    intro hmem
    obtain ⟨w, hw', hstate⟩ := h.entered seq hmem
    rw [hw, some.injEq] at hw'
    subst hw'
    exact hstate.elim id id
  have hmoved := h.move (u := ⟨approval, plan, .inHandler⟩) hw rfl Iff.rfl False.elim
    (fun _ _ => rfl) (fun _ => rfl) (fun _ => h.settled seq _ hw (.inl trivial))
  have hsettled : ∀ j wj,
      Function.update workers seq (some ⟨approval, plan, .inHandler⟩) j = some wj →
      (wj.pc.BehindBarrier ∨ .enter j ∈ log ++ [.enter seq]) → ∀ i < j, ∀ wi,
        Function.update workers seq (some ⟨approval, plan, .inHandler⟩) i = some wi →
        schedulingPlansConflict sys wi.plan wj.plan = true → wi.pc.Ended := by
    intro j wj hwj hbehind
    refine hmoved.settled j wj hwj ?_
    rcases hbehind with hb | hmem
    · exact .inl hb
    · rcases mem_append.mp hmem with hmem | hmem
      · exact .inr hmem
      · -- the worker itself is behind the barrier
        obtain rfl : j = seq := by simpa using hmem
        rw [update_self, some.injEq] at hwj
        exact .inl (hwj ▸ trivial)
  refine ⟨hmoved.published, hsettled, ?_, ?_, ?_, ?_⟩
  · intro i hmem
    rcases mem_append.mp hmem with hmem | hmem
    · exact hmoved.entered i hmem
    · obtain rfl : i = seq := by simpa using hmem
      exact ⟨_, update_self .., .inl trivial⟩
  · intro i wi hmem hwi hend
    rcases mem_append.mp hmem with hmem | hmem
    · exact mem_append_left _ (hmoved.left i wi hmem hwi hend)
    · obtain rfl : i = seq := by simpa using hmem
      rw [update_self, some.injEq] at hwi
      rw [← hwi] at hend
      exact hend.elim
  · have : enters (log ++ [.enter seq]) = enters log ++ [seq] := by simp [enters]
    rw [this, nodup_append]
    refine ⟨h.once, nodup_singleton _, ?_⟩
    intro x hx y hy hxy
    rw [mem_singleton] at hy
    subst hy hxy
    exact hnot (mem_enters.mp hx)
  · intro before j after hlog i hij wi wj hwi hwj hconf hmem
    rcases snoc_eq_append_cons hlog with ⟨hbefore, hj, -⟩ | ⟨rest, -, hlog'⟩
    · -- the worker that enters now: an earlier one in conflict has ended
      obtain rfl : j = seq := by simpa using hj
      rw [hbefore]
      have hne : i ≠ j := by omega
      have hended := hsettled j wj hwj (.inr (by simp)) i hij wi hwi hconf
      have hmem' : .enter i ∈ log := by
        rcases mem_append.mp hmem with hmem | hmem
        · exact hmem
        · exact absurd (by simpa using hmem) hne
      exact hmoved.left i wi hmem' hwi hended
    · -- a worker that entered before: the one that enters now is not in conflict with it
      rcases mem_append.mp hmem with hmem | hmem
      · exact hmoved.ordered before j rest hlog' i hij wi wj hwi hwj hconf hmem
      · obtain rfl : i = seq := by simpa using hmem
        have hentered : .enter j ∈ log := by
          rw [hlog']
          exact mem_append_right _ mem_cons_self
        have hended := hmoved.settled j wj hwj (.inr hentered) i hij wi hwi hconf
        rw [update_self, some.injEq] at hwi
        rw [← hwi] at hended
        exact hended.elim

/-- A worker ends, and with it an execution in progress. -/
theorem finish (h : WorkersInv sys workers scheduled log) {w : ToolWorker π}
    (hw : workers seq = some w) (hlive : ¬ w.pc.Ended)
    (outcome : Option (Option ToolCallResult)) {log' : List Activity}
    (hlog' : log' = log ++ [.leave seq] ∨ (log' = log ∧ ¬ w.pc.Executing)) :
    WorkersInv sys (Function.update workers seq (some { w with pc := .finished outcome }))
      scheduled log' := by
  have hplan : ({ w with pc := .finished outcome } : ToolWorker π).plan = w.plan := rfl
  have hmem_iff : ∀ i, .enter i ∈ log' ↔ .enter i ∈ log := by
    intro i
    rcases hlog' with rfl | ⟨rfl, -⟩
    · simp
    · rfl
  have hsub : ∀ a ∈ log, a ∈ log' := by
    intro a ha
    rcases hlog' with rfl | ⟨rfl, -⟩
    · exact mem_append_left _ ha
    · exact ha
  refine ⟨?_, ?_, ?_, ?_, ?_, ?_⟩
  · intro i wi hwi hend
    obtain ⟨v, hv, hvplan, hne, heq⟩ := plan_update hw hplan hwi
    by_cases hi : i = seq
    · rw [heq hi] at hend
      exact absurd trivial hend
    · rw [h.published i v hv (by rw [hne hi]; exact hend), hvplan]
  · intro j wj hwj hbehind i hij wi hwi hconf
    obtain ⟨v, hv, hvplan, hvne, hveq⟩ := plan_update hw hplan hwj
    obtain ⟨u, hu, huplan, hune, hueq⟩ := plan_update hw hplan hwi
    by_cases hi : i = seq
    · rw [hueq hi]
      trivial
    · rw [← hune hi]
      rw [← huplan, ← hvplan] at hconf
      refine h.settled j v hv ?_ i hij u hu hconf
      rcases hbehind with hb | hmem
      · by_cases hj : j = seq
        · rw [hveq hj] at hb
          exact hb.elim
        · exact .inl (by rw [hvne hj]; exact hb)
      · exact .inr ((hmem_iff j).mp hmem)
  · intro i hmem
    by_cases hi : i = seq
    · subst hi
      exact ⟨_, update_self .., .inr trivial⟩
    · obtain ⟨v, hv, hstate⟩ := h.entered i ((hmem_iff i).mp hmem)
      exact ⟨v, by rw [update_of_ne hi]; exact hv, hstate⟩
  · intro i wi hmem hwi hend
    have hmem := (hmem_iff i).mp hmem
    obtain ⟨v, hv, -, hne, -⟩ := plan_update hw hplan hwi
    by_cases hi : i = seq
    · -- an execution that was entered and has not ended is in progress
      subst hi
      obtain ⟨w', hw', hstate⟩ := h.entered i hmem
      rw [hw, some.injEq] at hw'
      subst hw'
      rcases hlog' with rfl | ⟨-, hidle⟩
      · exact mem_append_right _ (mem_singleton_self _)
      · exact absurd hstate (by rintro (hx | hx); exacts [hidle hx, hlive hx])
    · exact hsub _ (h.left i v hmem hv (by rw [hne hi]; exact hend))
  · have : enters log' = enters log := by
      rcases hlog' with rfl | ⟨rfl, -⟩
      · simp [enters]
      · rfl
    rw [this]
    exact h.once
  · intro before j after hlog i hij wi wj hwi hwj hconf hmem
    obtain ⟨v, hv, hvplan, -⟩ := plan_update hw hplan hwj
    obtain ⟨u, hu, huplan, -⟩ := plan_update hw hplan hwi
    rw [← huplan, ← hvplan] at hconf
    have hmem := (hmem_iff i).mp hmem
    have hsplit : ∃ rest, log = before ++ .enter j :: rest := by
      rcases hlog' with rfl | ⟨rfl, -⟩
      · rcases snoc_eq_append_cons hlog with ⟨-, hj, -⟩ | ⟨rest, -, hlog⟩
        · cases hj
        · exact ⟨rest, hlog⟩
      · exact ⟨after, hlog⟩
    obtain ⟨rest, hrest⟩ := hsplit
    exact h.ordered before j rest hrest i hij u v hu hv hconf hmem

end WorkersInv

/-! ### The invariant of the scope -/

/-- The request the scheduler is working on. -/
def SchedulerPc.current {π : Type} : SchedulerPc π → Option ℕ
  | .ready | .stopped => none
  | .taken seq | .preparing seq | .prepared seq _ _ | .scheduling seq _ _ | .launching seq _ _ =>
      some seq

namespace ToolWorld

variable {π : Type} [DecidableEq π] {sys : PathSystem π} {s s' : ToolWorld π} {t : ℕ}

/-- The invariant, when the scheduler has taken the first `t` requests. -/
structure Inv (sys : PathSystem π) (s : ToolWorld π) (t : ℕ) : Prop where
  workersInv : WorkersInv sys s.workers s.asyncToolScheduled s.log
  taken_le : t ≤ s.calls.length
  queue : s.asyncToolRequests = List.range' t (s.calls.length - t)
  /-- Only requests taken and done with have workers. -/
  worker_lt : ∀ i w, s.workers i = some w → i < t
  current : ∀ seq, s.scheduler.current = some seq → seq + 1 = t ∧ s.workers seq = none
  launching : ∀ seq approval plan, s.scheduler = .launching seq approval plan →
    s.asyncToolScheduled seq = some plan
  distinct : (s.calls.map (·.admittedCall.callId)).Nodup
  trusted : ∀ record ∈ s.calls, ∀ result, record.admittedTrustedResult = some result →
    result.callId = record.admittedCall.callId

theorem inv_init : Inv sys (init : ToolWorld π) 0 where
  workersInv :=
    { published := fun _ _ h => nomatch h
      settled := fun _ _ h => nomatch h
      entered := fun _ h => nomatch h
      left := fun _ _ h => nomatch h
      once := nodup_nil
      ordered := fun before _ _ h => absurd h.symm (by simp [init]) }
  taken_le := le_refl _
  queue := rfl
  worker_lt := fun _ _ h => nomatch h
  current := fun _ h => nomatch h
  launching := fun _ _ _ h => nomatch h
  distinct := nodup_nil
  trusted := fun _ h => nomatch h

/-- What completing a request changes. -/
structure Completes (s s' : ToolWorld π) (seq : ℕ) : Prop where
  workers : s'.workers = s.workers
  log : s'.log = s.log
  requests : s'.asyncToolRequests = s.asyncToolRequests
  scheduler : s'.scheduler = s.scheduler
  scheduled : s'.asyncToolScheduled = Function.update s.asyncToolScheduled seq none
  calls : s'.calls.map (fun record => (record.admittedCall, record.admittedTrustedResult))
    = s.calls.map (fun record => (record.admittedCall, record.admittedTrustedResult))

omit [DecidableEq π] in
theorem completes_of_completeToolRequest {seq : ℕ} {outcome : Option (Option ToolCallResult)}
    (h : s.completeToolRequest seq outcome = some s') : Completes s s' seq := by
  cases outcome with
  | none =>
    rw [completeToolRequest, some.injEq] at h
    subst h
    exact ⟨rfl, rfl, rfl, rfl, rfl, rfl⟩
  | some result =>
    simp only [completeToolRequest, putResult] at h
    split at h
    · next call trusted hcall =>
      cases h
      refine ⟨rfl, rfl, rfl, rfl, rfl, ?_⟩
      -- only the variable of the waiters is set
      refine ext_getElem? fun i => ?_
      rw [map_set, List.getElem?_set]
      split
      · next hi =>
        subst hi
        rw [List.getElem?_map, hcall]
        simp [(List.getElem?_eq_some_iff.mp hcall).1]
      · rfl
    · cases h

section

variable (h : s.Inv sys t)
include h

/-- A change of the records that keeps the calls and the recorded results. -/
theorem Inv.of_calls (hw : WorkersInv sys s'.workers s'.asyncToolScheduled s'.log)
    (hrequests : s'.asyncToolRequests = s.asyncToolRequests)
    (hcalls : s'.calls.map (fun record => (record.admittedCall, record.admittedTrustedResult))
      = s.calls.map (fun record => (record.admittedCall, record.admittedTrustedResult)))
    (hlt : ∀ i w, s'.workers i = some w → i < t)
    (hcurrent : ∀ seq, s'.scheduler.current = some seq → seq + 1 = t ∧ s'.workers seq = none)
    (hlaunch : ∀ seq approval plan, s'.scheduler = .launching seq approval plan →
      s'.asyncToolScheduled seq = some plan) : s'.Inv sys t := by
  have hlen : s'.calls.length = s.calls.length := by
    have := congrArg List.length hcalls
    simpa using this
  refine ⟨hw, by rw [hlen]; exact h.taken_le, by rw [hrequests, hlen]; exact h.queue, hlt, hcurrent,
    hlaunch, ?_, ?_⟩
  · have hids := congrArg (List.map fun p : ToolCall × Option ToolCallResult => p.1.callId) hcalls
    rw [List.map_map, List.map_map] at hids
    have hd := h.distinct
    rwa [show (s.calls.map fun record => record.admittedCall.callId)
      = s'.calls.map fun record => record.admittedCall.callId from hids.symm] at hd
  · intro record hmem result hresult
    have hpair : (record.admittedCall, record.admittedTrustedResult) ∈
        s.calls.map (fun record => (record.admittedCall, record.admittedTrustedResult)) :=
      hcalls ▸ List.mem_map_of_mem hmem
    obtain ⟨old, hold, heq⟩ := List.mem_map.mp hpair
    rw [Prod.mk.injEq] at heq
    rw [← heq.1]
    exact h.trusted old hold result (heq.2.trans hresult)

/-- A cancelled request is completed without a worker. -/
theorem Inv.completeCancelled {seq : ℕ} (hcur : s.scheduler.current = some seq)
    {outcome : Option (Option ToolCallResult)}
    (hst : (s.completeToolRequest seq outcome).map (fun s => { s with scheduler := .ready })
      = some s') : s'.Inv sys t := by
  obtain ⟨s₁, hs₁, rfl⟩ := map_eq_some_iff.mp hst
  have hc := completes_of_completeToolRequest hs₁
  refine h.of_calls ?_ hc.requests hc.calls ?_ (fun _ hnone => nomatch hnone)
    (fun _ _ _ hlaunch => nomatch hlaunch)
  · show WorkersInv sys s₁.workers s₁.asyncToolScheduled s₁.log
    rw [hc.workers, hc.scheduled, hc.log]
    exact h.workersInv.schedule (h.current seq hcur).2 none
  · show ∀ i w, s₁.workers i = some w → i < t
    rw [hc.workers]
    exact h.worker_lt

/-- A worker changes. -/
theorem Inv.updateWorker {seq : ℕ} {w w' : ToolWorker π}
    (hw : s.workers seq = some w) (hworkers : s'.workers = Function.update s.workers seq (some w'))
    (hinv : WorkersInv sys s'.workers s'.asyncToolScheduled s'.log)
    (hrequests : s'.asyncToolRequests = s.asyncToolRequests)
    (hscheduler : s'.scheduler = s.scheduler)
    (hcalls : s'.calls.map (fun record => (record.admittedCall, record.admittedTrustedResult))
      = s.calls.map (fun record => (record.admittedCall, record.admittedTrustedResult)))
    (hothers : ∀ i ≠ seq, s'.asyncToolScheduled i = s.asyncToolScheduled i) : s'.Inv sys t := by
  have hne : ∀ i, s.workers i = none → i ≠ seq := by
    rintro i hnone rfl
    rw [hw] at hnone
    cases hnone
  refine h.of_calls hinv hrequests hcalls ?_ ?_ ?_
  · intro i v hv
    rw [hworkers] at hv
    by_cases hi : i = seq
    · exact hi ▸ h.worker_lt seq w hw
    · rw [update_of_ne hi] at hv
      exact h.worker_lt i v hv
  · intro i hcur
    rw [hscheduler] at hcur
    obtain ⟨hi, hnone⟩ := h.current i hcur
    rw [hworkers, update_of_ne (hne i hnone)]
    exact ⟨hi, hnone⟩
  · intro i approval plan hlaunch
    rw [hscheduler] at hlaunch
    have hcur : s.scheduler.current = some i := by rw [hlaunch]; rfl
    rw [hothers i (hne i (h.current i hcur).2)]
    exact h.launching i approval plan hlaunch

/-- A worker ends. -/
theorem Inv.finish {seq : ℕ} {w : ToolWorker π} (hw : s.workers seq = some w)
    (hlive : ¬ w.pc.Ended) (outcome : Option (Option ToolCallResult)) :
    (s.finish seq w outcome).Inv sys t := by
  refine h.updateWorker hw rfl ?_ rfl rfl rfl (fun _ _ => rfl)
  refine h.workersInv.finish hw hlive outcome ?_
  cases hpc : w.pc with
  | inHandler | recorded result => exact .inl (by simp [ToolWorld.finish, hpc])
  | _ => exact .inr ⟨by simp [ToolWorld.finish, hpc], id⟩

theorem Inv.admitToolCall (call : ToolCall) :
    (s.admitToolCall call).Inv sys t := by
  unfold ToolWorld.admitToolCall
  split
  · exact h
  · next hnew =>
    refine ⟨h.workersInv, ?_, ?_, h.worker_lt, h.current, h.launching, ?_, ?_⟩
    · have := h.taken_le
      simp only [length_append, length_singleton]
      omega
    · -- the new number extends the range of the numbers in the queue
      have hle := h.taken_le
      have hlen : (s.calls ++ [(⟨call, none, none⟩ : AdmittedRecord)]).length - t
          = (s.calls.length - t) + 1 := by
        simp only [length_append, length_singleton]
        omega
      have hlast : t + (s.calls.length - t) = s.calls.length := by omega
      show s.asyncToolRequests ++ [s.calls.length] = _
      rw [hlen, h.queue, range'_1_concat, hlast]
    · rw [map_append, nodup_append]
      refine ⟨h.distinct, nodup_singleton _, ?_⟩
      intro x hx y hy hxy
      obtain ⟨record, hmem, rfl⟩ := List.mem_map.mp hx
      rw [map_singleton, mem_singleton] at hy
      refine hnew (List.any_eq_true.mpr ⟨record, hmem, ?_⟩)
      rw [hxy, hy]
      exact beq_self_eq_true _
    · intro record hmem result hresult
      rcases mem_append.mp hmem with hmem | hmem
      · exact h.trusted record hmem result hresult
      · rw [mem_singleton] at hmem
        subst hmem
        cases hresult

end

@[simp] theorem workerResult_callId (call : ToolCall) (approval : ToolApproval) (output : Text)
    (images : List ToolResultImage) (files : List ToolResultFile) (outcome : Option ToolOutcome) :
    (workerResult call approval output images files outcome).callId = call.callId := by
  cases approval <;> rfl

section

variable (h : s.Inv sys t)
include h

variable {plan : ToolSchedulingPlan π} {approval : ToolApproval} {seq : ℕ}

/-- A worker records the result of its handler. -/
theorem Inv.record
    {record : AdmittedRecord} {result : ToolCallResult}
    (hw : s.workers seq = some ⟨approval, plan, .inHandler⟩) (hcall : s.calls[seq]? = some record)
    (hid : result.callId = record.admittedCall.callId) :
    ((s.setTrustedResult seq result).setWorker seq
      ⟨approval, plan, .recorded result⟩).Inv sys t := by
  have hmoved : WorkersInv sys (Function.update s.workers seq
      (some ⟨approval, plan, .recorded result⟩)) s.asyncToolScheduled s.log :=
    h.workersInv.move hw rfl Iff.rfl id (fun _ _ => rfl) (fun _ => rfl)
      (fun _ => h.workersInv.settled seq _ hw (.inl trivial))
  have hne : ∀ i, s.workers i = none → i ≠ seq := by
    rintro i hnone rfl
    rw [hw] at hnone
    cases hnone
  refine ⟨hmoved, ?_, ?_, ?_, ?_, h.launching, ?_, ?_⟩
  · show t ≤ (s.calls.modify seq _).length
    rw [length_modify]
    exact h.taken_le
  · show s.asyncToolRequests = List.range' t ((s.calls.modify seq _).length - t)
    rw [length_modify]
    exact h.queue
  · intro i v hv
    have hv : Function.update s.workers seq (some ⟨approval, plan, .recorded result⟩) i
        = some v := hv
    by_cases hi : i = seq
    · exact hi ▸ h.worker_lt seq _ hw
    · rw [update_of_ne hi] at hv
      exact h.worker_lt i v hv
  · intro i hcur
    obtain ⟨hi, hnone⟩ := h.current i hcur
    refine ⟨hi, ?_⟩
    show Function.update s.workers seq (some ⟨approval, plan, .recorded result⟩) i = none
    rw [update_of_ne (hne i hnone)]
    exact hnone
  · have hids : ((s.calls.modify seq fun record =>
        { record with admittedTrustedResult := some result }).map (·.admittedCall.callId))
        = s.calls.map (·.admittedCall.callId) := by
      refine ext_getElem? fun i => ?_
      rw [List.getElem?_map, List.getElem?_map, List.getElem?_modify]
      cases s.calls[i]? with
      | none => rfl
      | some old =>
        simp only [map_some]
        split <;> rfl
    show ((s.calls.modify seq _).map (·.admittedCall.callId)).Nodup
    rw [hids]
    exact h.distinct
  · intro changed hmem recorded hrecorded
    have hmem : changed ∈ s.calls.modify seq fun record =>
      { record with admittedTrustedResult := some result } := hmem
    obtain ⟨i, hi⟩ := mem_iff_getElem?.mp hmem
    rw [List.getElem?_modify] at hi
    obtain ⟨old, hold, rfl⟩ := map_eq_some_iff.mp hi
    split at hrecorded
    · next heq =>
      subst heq
      rw [hcall, some.injEq] at hold
      subst hold
      rw [some.injEq] at hrecorded
      rw [← hrecorded]
      simpa using hid
    · next hne =>
      rw [if_neg hne]
      exact h.trusted old (mem_of_getElem? hold) recorded hrecorded

/-- The scheduler moves on with the request it has, or drops it. -/
theorem Inv.goto {pc : SchedulerPc π}
    (hcur : ∀ i, pc.current = some i → s.scheduler.current = some i)
    (hlaunch : ∀ seq approval plan, pc ≠ .launching seq approval plan) :
    Inv sys { s with scheduler := pc } t :=
  ⟨h.workersInv, h.taken_le, h.queue, h.worker_lt, fun i hi => h.current i (hcur i hi),
    fun seq approval plan heq => absurd heq (hlaunch seq approval plan), h.distinct, h.trusted⟩

/-- The scheduler takes the oldest request, which is the next number. -/
theorem Inv.take {rest : List ℕ}
    (hqueue : s.asyncToolRequests = seq :: rest) :
    Inv sys { s with asyncToolRequests := rest, scheduler := .taken seq } (t + 1) := by
  have hq := h.queue
  rw [hqueue] at hq
  have hlt : t < s.calls.length := by
    by_contra hge
    rw [Nat.sub_eq_zero_of_le (by omega)] at hq
    cases hq
  have hsucc : s.calls.length - t = (s.calls.length - (t + 1)) + 1 := by omega
  rw [hsucc, range'_succ, List.cons.injEq] at hq
  obtain ⟨rfl, hrest⟩ := hq
  have hnone : s.workers seq = none := by
    cases hw : s.workers seq with
    | none => rfl
    | some w => exact absurd (h.worker_lt seq w hw) (by omega)
  refine ⟨h.workersInv, hlt, hrest, ?_, ?_, fun _ _ _ hpc => (by cases hpc), h.distinct, h.trusted⟩
  · intro i w hw
    have := h.worker_lt i w hw
    omega
  · intro i hi
    rw [SchedulerPc.current, some.injEq] at hi
    exact hi ▸ ⟨rfl, hnone⟩

/-- The scheduler publishes the plan of the request it has. -/
theorem Inv.publish (hcur : s.scheduler.current = some seq)
    (approval : ToolApproval) (plan : ToolSchedulingPlan π) :
    Inv sys { s with
      asyncToolScheduled := Function.update s.asyncToolScheduled seq (some plan)
      scheduler := .launching seq approval plan } t := by
  refine ⟨h.workersInv.schedule (h.current seq hcur).2 _, h.taken_le, h.queue, h.worker_lt,
    fun i hi => h.current i (hcur.trans hi), ?_, h.distinct, h.trusted⟩
  intro i a p hl
  rw [SchedulerPc.launching.injEq] at hl
  obtain ⟨rfl, -, rfl⟩ := hl
  exact update_self ..

/-- The scheduler launches a worker, the latest one. -/
theorem Inv.launch
    (hsched : s.scheduler = .launching seq approval plan) :
    Inv sys { s.setWorker seq ⟨approval, plan, .waiting⟩ with scheduler := .ready } t := by
  have hcur := h.current seq (by rw [hsched]; rfl)
  have hlast : ∀ i w, s.workers i = some w → i < seq := by
    intro i w hw
    have hlt := h.worker_lt i w hw
    have hne : i ≠ seq := by
      rintro rfl
      rw [hcur.2] at hw
      cases hw
    omega
  refine ⟨h.workersInv.launch hlast (h.launching seq approval plan hsched), h.taken_le, h.queue, ?_,
    fun _ hpc => (by cases hpc), fun _ _ _ hpc => (by cases hpc), h.distinct, h.trusted⟩
  intro i w hw
  have hw : Function.update s.workers seq (some ⟨approval, plan, .waiting⟩) i = some w := hw
  by_cases hi : i = seq
  · omega
  · rw [update_of_ne hi] at hw
    exact h.worker_lt i w hw

/-- A worker passes the barrier. -/
theorem Inv.pass
    (hw : s.workers seq = some ⟨approval, plan, .waiting⟩)
    (hfree : s.unobstructed sys seq plan = true) :
    (s.setWorker seq ⟨approval, plan, .passed⟩).Inv sys t := by
  refine h.updateWorker hw rfl ?_ rfl rfl rfl (fun _ _ => rfl)
  refine h.workersInv.move hw rfl Iff.rfl False.elim (fun _ _ => rfl) (fun _ => rfl) ?_
  -- an earlier worker that has not ended is published, so the barrier has seen its plan
  intro _ i hi wi hwi hconf
  by_contra hlive
  have hpub := h.workersInv.published i wi hwi hlive
  have hall := List.all_eq_true.mp hfree i (mem_range.mpr hi)
  rw [hpub] at hall
  simp only [hconf, Bool.not_true] at hall
  cases hall

/-- A worker that has ended completes its request. -/
theorem Inv.complete
    {outcome : Option (Option ToolCallResult)}
    (hw : s.workers seq = some ⟨approval, plan, .finished outcome⟩)
    (hcomplete : s.completeToolRequest seq outcome = some s') :
    (s'.setWorker seq ⟨approval, plan, .completed⟩).Inv sys t := by
  have hc := completes_of_completeToolRequest hcomplete
  have hmoved : WorkersInv sys (Function.update s.workers seq
      (some ⟨approval, plan, .completed⟩)) (Function.update s.asyncToolScheduled seq none)
      s.log :=
    h.workersInv.move hw rfl Iff.rfl False.elim (fun i hi => update_of_ne hi ..)
      (fun hlive => absurd trivial hlive) False.elim
  have hworkers : (s'.setWorker seq ⟨approval, plan, .completed⟩).workers
      = Function.update s.workers seq (some ⟨approval, plan, .completed⟩) := by
    rw [setWorker, hc.workers]
  refine h.updateWorker hw hworkers ?_ hc.requests hc.scheduler hc.calls ?_
  · show WorkersInv sys (Function.update s'.workers seq _) s'.asyncToolScheduled s'.log
    rw [hc.workers, hc.scheduled, hc.log]
    exact hmoved
  · intro i hi
    show s'.asyncToolScheduled i = _
    rw [hc.scheduled, update_of_ne hi]

/-- **Every step keeps the invariant.** -/
theorem Inv.step {e : ToolEvent π} (hst : s.step sys e = some s') :
    ∃ t', s'.Inv sys t' := by
  cases e with
  | admitCall call =>
    rw [ToolWorld.step, some.injEq] at hst
    exact ⟨t, hst ▸ h.admitToolCall call⟩
  | acknowledge results calls | setCancelled cancelled =>
    rw [ToolWorld.step, some.injEq] at hst
    subst hst
    exact ⟨t, ⟨h.workersInv, h.taken_le, h.queue, h.worker_lt, h.current, h.launching, h.distinct,
      h.trusted⟩⟩
  | take =>
    simp only [ToolWorld.step] at hst
    split at hst
    · next seq rest hsched hqueue =>
      rw [some.injEq] at hst
      exact ⟨t + 1, hst ▸ h.take hqueue⟩
    · cases hst
  | checkBefore =>
    simp only [ToolWorld.step] at hst
    split at hst
    · next seq hsched =>
      have hcur : s.scheduler.current = some seq := by rw [hsched]; rfl
      split at hst
      · exact ⟨t, h.completeCancelled hcur hst⟩
      · rw [some.injEq] at hst
        exact ⟨t, hst ▸ h.goto (fun i hi => hcur.trans hi) (fun _ _ _ hpc => (by cases hpc))⟩
    · cases hst
  | prepare approval plan =>
    simp only [ToolWorld.step] at hst
    split at hst
    · next seq hsched =>
      have hcur : s.scheduler.current = some seq := by rw [hsched]; rfl
      rw [some.injEq] at hst
      exact ⟨t, hst ▸ h.goto (fun i hi => hcur.trans hi) (fun _ _ _ hpc => (by cases hpc))⟩
    · cases hst
  | cancelPreparing =>
    simp only [ToolWorld.step] at hst
    split at hst
    · next seq hsched =>
      split at hst
      · exact ⟨t, h.completeCancelled (by rw [hsched]; rfl) hst⟩
      · cases hst
    · cases hst
  | checkAfter =>
    simp only [ToolWorld.step] at hst
    split at hst
    · next seq approval plan hsched =>
      have hcur : s.scheduler.current = some seq := by rw [hsched]; rfl
      split at hst
      · exact ⟨t, h.completeCancelled hcur hst⟩
      · rw [some.injEq] at hst
        exact ⟨t, hst ▸ h.goto (fun i hi => hcur.trans hi) (fun _ _ _ hpc => (by cases hpc))⟩
    · cases hst
  | publish =>
    simp only [ToolWorld.step] at hst
    split at hst
    · next seq approval plan hsched =>
      have hcur : s.scheduler.current = some seq := by rw [hsched]; rfl
      rw [some.injEq] at hst
      exact ⟨t, hst ▸ h.publish hcur approval plan⟩
    · cases hst
  | launch =>
    simp only [ToolWorld.step] at hst
    split at hst
    · next seq approval plan hsched =>
      rw [some.injEq] at hst
      exact ⟨t, hst ▸ h.launch hsched⟩
    · cases hst
  | pass seq =>
    simp only [ToolWorld.step] at hst
    split at hst
    · next approval plan hw =>
      split at hst
      · next hfree =>
        rw [some.injEq] at hst
        exact ⟨t, hst ▸ h.pass hw hfree⟩
      · cases hst
    · cases hst
  | enter seq =>
    simp only [ToolWorld.step] at hst
    split at hst
    · next approval plan hw =>
      split at hst
      · rw [some.injEq] at hst
        exact ⟨t, hst ▸ h.finish hw id _⟩
      · cases hst
        exact ⟨t, h.updateWorker hw rfl (h.workersInv.enter hw) rfl rfl rfl (fun _ _ => rfl)⟩
    · cases hst
  | record seq output images files outcome =>
    simp only [ToolWorld.step] at hst
    split at hst
    · next approval plan record hw hcall =>
      rw [some.injEq] at hst
      exact ⟨t, hst ▸ h.record hw hcall (workerResult_callId ..)⟩
    · cases hst
  | deliver seq =>
    simp only [ToolWorld.step] at hst
    split at hst
    · next approval plan result hw =>
      rw [some.injEq] at hst
      exact ⟨t, hst ▸ h.finish hw id _⟩
    · cases hst
  | crash seq =>
    simp only [ToolWorld.step] at hst
    split at hst
    · cases hst
    · cases hst
    · next worker hfin hcomp hw =>
      rw [some.injEq] at hst
      refine ⟨t, hst ▸ h.finish hw ?_ none⟩
      obtain ⟨approval, plan, pc⟩ := worker
      cases pc with
      | finished outcome => exact absurd rfl (hfin approval plan outcome)
      | completed => exact absurd rfl (hcomp approval plan)
      | _ => exact id
    · cases hst
  | interrupt seq =>
    simp only [ToolWorld.step] at hst
    split at hst
    · split at hst
      · next hw =>
        rw [some.injEq] at hst
        exact ⟨t, hst ▸ h.finish hw id _⟩
      · next hw =>
        rw [some.injEq] at hst
        exact ⟨t, hst ▸ h.finish hw id _⟩
      · next hw =>
        rw [some.injEq] at hst
        exact ⟨t, hst ▸ h.finish hw id _⟩
      · cases hst
    · cases hst
  | complete seq =>
    simp only [ToolWorld.step] at hst
    split at hst
    · next approval plan outcome hw =>
      obtain ⟨completed, hcomplete, rfl⟩ := map_eq_some_iff.mp hst
      exact ⟨t, h.complete hw hcomplete⟩
    · cases hst
  | stop =>
    rw [ToolWorld.step, some.injEq] at hst
    exact ⟨t, hst ▸ h.goto (fun _ hnone => (by cases hnone)) (fun _ _ _ hpc => (by cases hpc))⟩

end

/-- The invariant holds in every run. -/
theorem inv_of_reachable (h : Reachable (ToolWorld.step sys) init s) :
    ∃ t, s.Inv sys t :=
  h.invariant (I := fun s => ∃ t, s.Inv sys t) ⟨0, inv_init⟩
    fun _ _ _ ⟨_, hinv⟩ _ hst => hinv.step hst

/-- A record as recovery reads it. -/
def admitted (record : AdmittedRecord)
    (h : ∀ result, record.admittedTrustedResult = some result →
      result.callId = record.admittedCall.callId) (seq : ℕ) : AdmittedToolCall where
  admittedCall := record.admittedCall
  admittedTrustedResult := record.admittedTrustedResult
  admissionSequence := seq
  trusted_callId := h

/-- What recovery reads of the scope, once its workers have ended. -/
def scope (s : ToolWorld π) (h : Reachable (ToolWorld.step sys) init s) : ToolScope where
  asyncToolCalls := s.calls.attach.zipIdx.map fun p =>
    admitted p.1.1 ((inv_of_reachable h).elim fun _ hinv => hinv.trusted p.1.1 p.1.2) p.2
  asyncToolAcknowledged := s.asyncToolAcknowledged
  asyncToolCommittedCalls := s.asyncToolCommittedCalls
  distinct := by
    obtain ⟨t, hinv⟩ := inv_of_reachable h
    rw [List.map_map]
    have hids : (s.calls.attach.zipIdx.map fun p => p.1.1.admittedCall.callId)
        = s.calls.map (·.admittedCall.callId) := by
      calc (s.calls.attach.zipIdx.map fun p => p.1.1.admittedCall.callId)
          = (s.calls.attach.zipIdx.map Prod.fst).map (fun r => r.1.admittedCall.callId) := by
            rw [List.map_map]
            rfl
        _ = (s.calls.attach.map Subtype.val).map (·.admittedCall.callId) := by
            rw [zipIdx_map_fst, List.map_map]
            rfl
        _ = s.calls.map (·.admittedCall.callId) := by rw [List.attach_map_subtype_val]
    exact hids ▸ hinv.distinct

end ToolWorld

/-! ### Safety -/

section

variable {π : Type} [DecidableEq π] {sys : PathSystem π} {s : ToolWorld π}

/-- The call ids executed so far. -/
def executedCalls (s : ToolWorld π) : List Text :=
  (enters s.log).filterMap fun seq => (s.calls[seq]?).map (·.admittedCall.callId)

/-- Two conflicting workers do not execute at the same time: the earlier one has ended. -/
theorem WorkersInv.exclusive {workers : ℕ → Option (ToolWorker π)}
    {scheduled : ℕ → Option (ToolSchedulingPlan π)} {log : List Activity}
    (h : WorkersInv sys workers scheduled log) {i j : ℕ} (hij : i < j) {wi wj : ToolWorker π}
    (hwi : workers i = some wi) (hwj : workers j = some wj) (hi : wi.pc.Executing)
    (hj : wj.pc.Executing) : schedulingPlansConflict sys wi.plan wj.plan = false := by
  by_contra hconf
  have hbehind : wj.pc.BehindBarrier := by
    cases hpc : wj.pc <;> simp_all [WorkerPc.Executing, WorkerPc.BehindBarrier]
  have hended := h.settled j wj hwj (.inl hbehind) i hij wi hwi (by simpa using hconf)
  cases hpc : wi.pc <;> simp_all [WorkerPc.Executing, WorkerPc.Ended]

/-- **Tool scheduling is safe.**  In every state of every run: each call id is executed at most
once; no two workers with conflicting plans execute at the same time; and of two calls with
conflicting plans the one admitted first is executed first, its execution over before the other
begins. -/
theorem tool_scheduling_safe (h : Reachable (ToolWorld.step sys) .init s) :
    (executedCalls s).Nodup ∧
      (∀ i j wi wj, i ≠ j → s.workers i = some wi → s.workers j = some wj →
        wi.pc.Executing → wj.pc.Executing →
        schedulingPlansConflict sys wi.plan wj.plan = false) ∧
      (∀ i j wi wj, i < j → s.workers i = some wi → s.workers j = some wj →
        schedulingPlansConflict sys wi.plan wj.plan = true → .enter i ∈ s.log →
        ∀ before after, s.log = before ++ .enter j :: after → .leave i ∈ before) := by
  obtain ⟨t, hinv⟩ := ToolWorld.inv_of_reachable h
  refine ⟨?_, ?_, ?_⟩
  · -- admission numbers are executed once, and call ids belong to one number
    refine hinv.workersInv.once.filterMap ?_
    intro i j callId hi hj
    obtain ⟨ri, hri, hidi⟩ := map_eq_some_iff.mp hi
    obtain ⟨rj, hrj, hidj⟩ := map_eq_some_iff.mp hj
    have hmi : (s.calls.map (·.admittedCall.callId))[i]? = some callId := by
      rw [List.getElem?_map, hri, map_some, hidi]
    have hmj : (s.calls.map (·.admittedCall.callId))[j]? = some callId := by
      rw [List.getElem?_map, hrj, map_some, hidj]
    exact (List.getElem?_inj (List.getElem?_eq_some_iff.mp hmi).1 hinv.distinct).mp
      (hmi.trans hmj.symm)
  · intro i j wi wj hne hwi hwj hi hj
    rcases Nat.lt_or_gt_of_ne hne with hlt | hgt
    · exact hinv.workersInv.exclusive hlt hwi hwj hi hj
    · rw [schedulingPlansConflict_comm]
      exact hinv.workersInv.exclusive hgt hwj hwi hj hi
  · intro i j wi wj hlt hwi hwj hconf hmem before after hlog
    exact hinv.workersInv.ordered before j after hlog i hlt wi wj hwi hwj hconf hmem

/-- **Requests are taken in the order of their admission, and none is lost**: the queue holds the
admitted calls behind the first `t`, in order; only calls before these have workers, the last of them
none while the scheduler still works on it; and no two admitted calls have one id. -/
theorem tool_requests_in_order (h : Reachable (ToolWorld.step sys) .init s) :
    (s.calls.map (·.admittedCall.callId)).Nodup ∧
    ∃ t ≤ s.calls.length, s.asyncToolRequests = List.range' t (s.calls.length - t) ∧
      (∀ seq worker, s.workers seq = some worker → seq < t) ∧
      ∀ seq, s.scheduler.current = some seq → seq + 1 = t ∧ s.workers seq = none := by
  obtain ⟨t, hinv⟩ := ToolWorld.inv_of_reachable h
  exact ⟨hinv.distinct, t, hinv.taken_le, hinv.queue, hinv.worker_lt, hinv.current⟩

end

/-- Absolute paths as lists of directories. -/
def absolutePaths : PathSystem (List Text) where
  normal := id
  isAbsolute := fun path => path.head? == some ['/']
  makeRelative := fun root path => if root.isPrefixOf path then path.drop root.length else path
  splitDirectories := fun path => path.map fun directory => [directory]
  parent := [['.', '.']]

/-- Two exclusive calls, the first of them announced again, run one after the other. -/
def schedulingRun : List (ToolEvent (List Text)) :=
  let schedule : List (ToolEvent (List Text)) :=
    [.take, .checkBefore, .prepare .granted .exclusive, .checkAfter, .publish, .launch]
  [.admitCall (exampleCall ['a']), .admitCall (exampleCall ['b']),
    .admitCall (exampleCall ['a'])] ++
    schedule ++ schedule ++
    [.pass 0, .enter 0, .record 0 [] [] [] none, .deliver 0, .complete 0, .pass 1, .enter 1]

theorem tool_scheduling_safe_in_schedulingRun :
    ∃ s, Machine.run (ToolWorld.step absolutePaths) .init schedulingRun = some s ∧
      (executedCalls s).length = 2 ∧ (executedCalls s).Nodup := by
  obtain ⟨s, hs⟩ := isSome_iff_exists.mp
    (show (Machine.run (ToolWorld.step absolutePaths) .init schedulingRun).isSome = true from rfl)
  refine ⟨s, hs, ?_, (tool_scheduling_safe (reachable_of_run hs)).1⟩
  cases hs
  rfl

theorem tool_requests_in_order_in_schedulingRun :
    ∃ s, Machine.run (ToolWorld.step absolutePaths) .init (schedulingRun.take 4) = some s ∧
      s.asyncToolRequests = [1] ∧ s.scheduler.current = some 0 ∧
      (s.calls.map (·.admittedCall.callId)).Nodup := by
  obtain ⟨s, hs⟩ := isSome_iff_exists.mp
    (show (Machine.run (ToolWorld.step absolutePaths) .init (schedulingRun.take 4)).isSome = true
      from rfl)
  refine ⟨s, hs, ?_, ?_, (tool_requests_in_order (reachable_of_run hs)).1⟩
  all_goals
    cases hs
    rfl

end HaskellAgent
