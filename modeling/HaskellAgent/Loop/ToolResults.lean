import HaskellAgent.Lib.Lists
import HaskellAgent.Loop.ToolExecution
import Mathlib.Data.List.ReduceOption

/-!
# The results of the tool calls of a response

`runToolCalls` admits the calls of a response, reads the variables of its blocking calls in the
order of the list, and then takes the completions of asynchronous calls that are ready.  Any number
of its runs are interleaved here with the stream's announcements, the scheduler, its workers and the
commits of responses.

A run reads one variable for each blocking entry of its list.  A blocking call listed twice is
admitted once, so both entries name one variable, and its result is returned for each of them.
-/

open List Option Machine

namespace HaskellAgent

def ToolCall.isBlocking (call : ToolCall) : Bool := call.mode = .blocking

namespace ToolWorld

variable {π : Type}

/-- The calls with the variables that their waiters read. -/
def waited (s : ToolWorld π) : List (ToolCall × Option (Option ToolCallResult)) :=
  s.calls.map fun record => (record.admittedCall, record.admittedResult)

/-- The record whose variable `admitToolCall` returns; `none` where it throws. -/
def admission (s : ToolWorld π) (call : ToolCall) : Option ℕ :=
  match s.calls.findIdx? fun record => record.admittedCall.callId == call.callId with
  | none => some s.calls.length
  | some seq => if (s.calls[seq]?).any (·.admittedCall == call) then some seq else none

/-- `takeAsyncToolCompletions`; `none` where it waits. -/
def takeAsyncToolCompletions (s : ToolWorld π) : Option (List ToolCallResult × ToolWorld π) :=
  match s.asyncToolCompleted with
  | first :: rest => some (first :: rest, { s with asyncToolCompleted := [] })
  | [] => if s.asyncToolOutstanding = 0 then some ([], s) else none

/-- The call of the result was committed as it was admitted. -/
def canonical (s : ToolWorld π) (result : ToolCallResult) : Bool :=
  match s.calls.find? fun record => record.admittedCall.callId == result.callId with
  | none => false
  | some record => s.asyncToolCommittedCalls result.callId == some record.admittedCall

/-- The last transaction of `runToolCalls`: orphans alone do not end the wait while calls are
outstanding, and are back in the queue then. -/
def completedAsync (s : ToolWorld π) : Option (List ToolCallResult × ToolWorld π) :=
  s.takeAsyncToolCompletions.bind fun p =>
    let found := p.1.filter p.2.canonical
    if found.isEmpty && 0 < p.2.asyncToolOutstanding then none else some (found, p.2)

/-- A call with a result. -/
def hasResult (s : ToolWorld π) (call : ToolCall) : Bool :=
  s.waited.any fun p => p.1 == call && (p.2.any Option.isSome)

/-- The blocking calls of a list that have a result, once for each entry. -/
def answered (s : ToolWorld π) (calls : List ToolCall) : List ToolCall :=
  (calls.filter ToolCall.isBlocking).filter s.hasResult

end ToolWorld

/-- Where a run of `runToolCalls` is. -/
inductive ToolRunPc
  /-- Calls left for admission, and the records of the blocking calls admitted. -/
  | admitting (remaining : List ToolCall) (blocking : List ℕ)
  /-- Records left to wait for, and what the others came to. -/
  | reading (remaining : List ℕ) (outcomes : List (Option ToolCallResult))
  | returned (results : List ToolCallResult)
  /-- A conflicting call, or cancellation. -/
  | failed
  deriving DecidableEq

structure ToolRun where
  calls : List ToolCall
  pc : ToolRunPc
  deriving DecidableEq

structure ToolResults (π : Type) where
  scope : ToolWorld π
  runs : List ToolRun

inductive ToolRunEvent (π : Type)
  /-- A step of the stream, the scheduler, a worker or a commit. -/
  | move (event : ToolEvent π)
  | call (calls : List ToolCall)
  | admitNext (i : ℕ)
  | read (i : ℕ)
  | collect (i : ℕ)
  | interrupt (i : ℕ)

namespace ToolResults

variable {π : Type} [DecidableEq π]

def init : ToolResults π where
  scope := .init
  runs := []

def setRun (w : ToolResults π) (i : ℕ) (run : ToolRun) : ToolResults π :=
  { w with runs := w.runs.set i run }

/-- `admit` of `runToolCalls`. -/
def admitNext (w : ToolResults π) (i : ℕ) : Option (ToolResults π) :=
  match w.runs[i]? with
  | some ⟨calls, .admitting [] blocking⟩ => some (w.setRun i ⟨calls, .reading blocking []⟩)
  | some ⟨calls, .admitting (call :: rest) blocking⟩ =>
    match w.scope.admission call with
    | none => some (w.setRun i ⟨calls, .failed⟩)
    | some seq =>
      let blocking := if call.mode = .async then blocking else blocking ++ [seq]
      some { w.setRun i ⟨calls, .admitting rest blocking⟩ with
        scope := w.scope.admitToolCall call }
  | _ => none

/-- `readTMVar` for the next blocking call. -/
def read (w : ToolResults π) (i : ℕ) : Option (ToolResults π) :=
  match w.runs[i]? with
  | some ⟨calls, .reading (seq :: rest) outcomes⟩ =>
    ((w.scope.calls[seq]?).bind (·.admittedResult)).map fun outcome =>
      w.setRun i ⟨calls, .reading rest (outcomes ++ [outcome])⟩
  | _ => none

def collect (w : ToolResults π) (i : ℕ) : Option (ToolResults π) :=
  match w.runs[i]? with
  | some ⟨calls, .reading [] outcomes⟩ =>
    w.scope.completedAsync.map fun p =>
      { w.setRun i ⟨calls, .returned (outcomes.reduceOption ++ p.1)⟩ with scope := p.2 }
  | _ => none

def step (sys : PathSystem π) (w : ToolResults π) : ToolRunEvent π → Option (ToolResults π)
  | .move event => (w.scope.step sys event).map fun scope => { w with scope }
  | .call calls => some { w with runs := w.runs ++ [⟨calls, .admitting calls []⟩] }
  | .admitNext i => w.admitNext i
  | .read i => w.read i
  | .collect i => w.collect i
  | .interrupt i =>
    match w.runs[i]? with
    | some ⟨_, .returned _⟩ => none
    | some run => some (w.setRun i { run with pc := .failed })
    | none => none

end ToolResults

/-! ### What a step does to the calls -/

section

variable {π : Type} {s s' : ToolWorld π}

/-- The result a worker has on its way to the waiters. -/
def WorkerPc.carried : WorkerPc → Option ToolCallResult
  | .recorded result => some result
  | .finished (some (some result)) => some result
  | _ => none

/-- A step of the scope leaves the calls alone, admits one, or completes one. -/
inductive CallsStep (s s' : ToolWorld π) : Prop
  | keeps (hwaited : s'.waited = s.waited)
      (hcompleted : s'.asyncToolCompleted = s.asyncToolCompleted)
      (houtstanding : s'.asyncToolOutstanding = s.asyncToolOutstanding)
  | admits (call : ToolCall) (hnew : ∀ p ∈ s.waited, p.1.callId ≠ call.callId)
      (hwaited : s'.waited = s.waited ++ [(call, none)])
      (hcompleted : s'.asyncToolCompleted = s.asyncToolCompleted)
      (houtstanding : s'.asyncToolOutstanding =
        if call.mode = .async then s.asyncToolOutstanding + 1 else s.asyncToolOutstanding)
  | completes (seq : ℕ) (call : ToolCall) (result : Option ToolCallResult)
      (hcall : s.waited[seq]? = some (call, none))
      (hcarried : ∀ r, result = some r →
        ∃ worker, s.workers seq = some worker ∧ worker.pc.carried = some r)
      (hwaited : s'.waited = s.waited.set seq (call, some result))
      (hcompleted : s'.asyncToolCompleted =
        if call.mode = .async then s.asyncToolCompleted ++ result.toList
        else s.asyncToolCompleted)
      (houtstanding : s'.asyncToolOutstanding =
        if call.mode = .async then s.asyncToolOutstanding - 1 else s.asyncToolOutstanding)

/-- Only the calls, the completions and their counter matter. -/
theorem CallsStep.congr {t : ToolWorld π} (h : CallsStep s s') (hcalls : t.calls = s'.calls)
    (hcompleted : t.asyncToolCompleted = s'.asyncToolCompleted)
    (houtstanding : t.asyncToolOutstanding = s'.asyncToolOutstanding) : CallsStep s t := by
  have hwaited : t.waited = s'.waited := by rw [ToolWorld.waited, ToolWorld.waited, hcalls]
  cases h with
  | keeps hw hc ho =>
    exact .keeps (hwaited.trans hw) (hcompleted.trans hc) (houtstanding.trans ho)
  | admits call hnew hw hc ho =>
    exact .admits call hnew (hwaited.trans hw) (hcompleted.trans hc) (houtstanding.trans ho)
  | completes seq call result hcall hcarried hw hc ho =>
    exact .completes seq call result hcall hcarried (hwaited.trans hw) (hcompleted.trans hc)
      (houtstanding.trans ho)

namespace ToolWorld

theorem callsStep_admitToolCall (s : ToolWorld π) (call : ToolCall) :
    CallsStep s (s.admitToolCall call) := by
  unfold admitToolCall
  split
  · exact .keeps rfl rfl rfl
  · next hnew =>
    refine .admits call ?_ ?_ rfl rfl
    · intro p hp hid
      obtain ⟨record, hmem, rfl⟩ := List.mem_map.mp hp
      exact hnew (List.any_eq_true.mpr ⟨record, hmem, beq_iff_eq.mpr hid⟩)
    · simp only [waited, map_append, map_cons, map_nil]

theorem callsStep_completeToolRequest {seq : ℕ} {outcome : Option (Option ToolCallResult)}
    (h : s.completeToolRequest seq outcome = some s')
    (hcarried : ∀ r, outcome = some (some r) →
      ∃ worker, s.workers seq = some worker ∧ worker.pc.carried = some r) :
    CallsStep s s' := by
  unfold completeToolRequest at h
  cases outcome with
  | none =>
    cases h
    exact .keeps rfl rfl rfl
  | some result =>
    simp only [putResult] at h
    split at h
    · next call trusted hcall =>
      cases h
      have hwaited : s.waited[seq]? = some (call, none) := by
        rw [waited, List.getElem?_map, hcall, map_some]
      refine .completes seq call result hwaited (fun r hr => hcarried r (hr ▸ rfl)) ?_ rfl rfl
      simp only [waited, map_set]
    · cases h

theorem waited_setTrustedResult (s : ToolWorld π) (seq : ℕ) (result : ToolCallResult) :
    (s.setTrustedResult seq result).waited = s.waited := by
  refine ext_getElem? fun i => ?_
  simp only [waited, setTrustedResult, List.getElem?_map, List.getElem?_modify]
  cases s.calls[i]? with
  | none => rfl
  | some record =>
    simp only [map_some]
    split <;> rfl

/-- The scheduler drops the request it has. -/
theorem callsStep_cancelled {seq : ℕ}
    (h : (s.completeToolRequest seq (some none)).map
      (fun t => { t with scheduler := SchedulerPc.ready }) = some s') : CallsStep s s' := by
  obtain ⟨t, hcomplete, rfl⟩ := map_eq_some_iff.mp h
  have hcarried : ∀ r, (some none : Option (Option ToolCallResult)) = some (some r) →
      ∃ worker, s.workers seq = some worker ∧ worker.pc.carried = some r := by
    intro r hr
    cases hr
  exact (callsStep_completeToolRequest hcomplete hcarried).congr rfl rfl rfl

section

variable [DecidableEq π] {sys : PathSystem π}

/-- **What a step of the scope does to its calls.** -/
theorem callsStep_of_step {e : ToolEvent π} (hst : s.step sys e = some s') : CallsStep s s' := by
  cases e with
  | admitCall call =>
    cases hst
    exact callsStep_admitToolCall s call
  | acknowledge results calls | setCancelled cancelled =>
    cases hst
    exact .keeps rfl rfl rfl
  | take | prepare approval plan | publish | launch =>
    simp only [step] at hst
    split at hst
    · cases hst
      exact .keeps rfl rfl rfl
    · cases hst
  | checkBefore | checkAfter =>
    simp only [step] at hst
    split at hst
    · split at hst
      · exact callsStep_cancelled hst
      · cases hst
        exact .keeps rfl rfl rfl
    · cases hst
  | cancelPreparing =>
    simp only [step] at hst
    split at hst
    · split at hst
      · exact callsStep_cancelled hst
      · cases hst
    · cases hst
  | pass seq =>
    simp only [step] at hst
    split at hst
    · split at hst
      · cases hst
        exact .keeps rfl rfl rfl
      · cases hst
    · cases hst
  | enter seq =>
    simp only [step] at hst
    split at hst
    · split at hst <;> cases hst <;> exact .keeps rfl rfl rfl
    · cases hst
  | record seq output images files outcome =>
    simp only [step] at hst
    split at hst
    · cases hst
      exact .keeps (waited_setTrustedResult s seq _) rfl rfl
    · cases hst
  | deliver seq =>
    simp only [step] at hst
    split at hst
    · cases hst
      exact .keeps rfl rfl rfl
    · cases hst
  | crash seq =>
    simp only [step] at hst
    split at hst <;> cases hst
    exact .keeps rfl rfl rfl
  | interrupt seq =>
    simp only [step] at hst
    split at hst
    · split at hst <;> cases hst <;> exact .keeps rfl rfl rfl
    · cases hst
  | complete seq =>
    simp only [step] at hst
    split at hst
    · next approval plan outcome hworker =>
      obtain ⟨t, hcomplete, rfl⟩ := map_eq_some_iff.mp hst
      have hcarried : ∀ r, outcome = some (some r) →
          ∃ worker, s.workers seq = some worker ∧ worker.pc.carried = some r := by
        rintro r rfl
        exact ⟨_, hworker, rfl⟩
      exact (callsStep_completeToolRequest hcomplete hcarried).congr rfl rfl rfl
    · cases hst
  | stop =>
    cases hst
    exact .keeps rfl rfl rfl

end

/-- What a worker carries was carried before, or is the result of its call's handler. -/
def Carries (s : ToolWorld π) (seq : ℕ) (moved : ToolWorker π) : Prop :=
  ∀ result, moved.pc.carried = some result →
    (∃ worker, s.workers seq = some worker ∧ worker.pc.carried = some result) ∨
      ∃ record, s.calls[seq]? = some record ∧ result.callId = record.admittedCall.callId

theorem carries_of_none {seq : ℕ} {moved : ToolWorker π} (h : moved.pc.carried = none) :
    s.Carries seq moved := by
  intro result hcarried
  rw [h] at hcarried
  cases hcarried

theorem carries_of_same {seq : ℕ} {worker moved : ToolWorker π}
    (hworker : s.workers seq = some worker) (h : moved.pc.carried = worker.pc.carried) :
    s.Carries seq moved :=
  fun _ hcarried => .inl ⟨worker, hworker, h ▸ hcarried⟩

theorem workers_completeToolRequest {seq : ℕ} {outcome : Option (Option ToolCallResult)}
    (h : s.completeToolRequest seq outcome = some s') : s'.workers = s.workers :=
  (completes_of_completeToolRequest h).workers

section

variable [DecidableEq π] {sys : PathSystem π}

/-- **What a step does to the workers**: it moves one at most. -/
theorem workers_of_step {e : ToolEvent π} (hst : s.step sys e = some s') :
    s'.workers = s.workers ∨ ∃ seq moved,
      s'.workers = Function.update s.workers seq (some moved) ∧ s.Carries seq moved := by
  cases e with
  | admitCall call =>
    cases hst
    refine .inl ?_
    unfold admitToolCall
    split <;> rfl
  | acknowledge results calls | setCancelled cancelled =>
    cases hst
    exact .inl rfl
  | take | prepare approval plan | publish =>
    simp only [step] at hst
    split at hst
    · cases hst
      exact .inl rfl
    · cases hst
  | checkBefore | checkAfter =>
    simp only [step] at hst
    split at hst
    · split at hst
      · obtain ⟨t, hcomplete, rfl⟩ := map_eq_some_iff.mp hst
        have hworkers := workers_completeToolRequest hcomplete
        exact .inl hworkers
      · cases hst
        exact .inl rfl
    · cases hst
  | cancelPreparing =>
    simp only [step] at hst
    split at hst
    · split at hst
      · obtain ⟨t, hcomplete, rfl⟩ := map_eq_some_iff.mp hst
        have hworkers := workers_completeToolRequest hcomplete
        exact .inl hworkers
      · cases hst
    · cases hst
  | launch =>
    simp only [step] at hst
    split at hst
    · cases hst
      exact .inr ⟨_, _, rfl, carries_of_none rfl⟩
    · cases hst
  | pass seq =>
    simp only [step] at hst
    split at hst
    · split at hst
      · cases hst
        exact .inr ⟨seq, _, rfl, carries_of_none rfl⟩
      · cases hst
    · cases hst
  | enter seq =>
    simp only [step] at hst
    split at hst
    · split at hst <;> cases hst <;> exact .inr ⟨seq, _, rfl, carries_of_none rfl⟩
    · cases hst
  | record seq output images files outcome =>
    simp only [step] at hst
    split at hst
    · next approval plan record hworker hcall =>
      cases hst
      refine .inr ⟨seq, _, rfl, ?_⟩
      rintro result hcarried
      cases hcarried
      exact .inr ⟨record, hcall, workerResult_callId ..⟩
    · cases hst
  | deliver seq =>
    simp only [step] at hst
    split at hst
    · next approval plan result hworker =>
      cases hst
      exact .inr ⟨seq, _, rfl, carries_of_same hworker rfl⟩
    · cases hst
  | crash seq =>
    simp only [step] at hst
    split at hst <;> cases hst
    exact .inr ⟨seq, _, rfl, carries_of_none rfl⟩
  | interrupt seq =>
    simp only [step] at hst
    split at hst
    · split at hst <;> cases hst <;> exact .inr ⟨seq, _, rfl, carries_of_none rfl⟩
    · cases hst
  | complete seq =>
    simp only [step] at hst
    split at hst
    · next approval plan outcome hworker =>
      obtain ⟨t, hcomplete, rfl⟩ := map_eq_some_iff.mp hst
      refine .inr ⟨seq, ⟨approval, plan, .completed⟩, ?_, carries_of_none rfl⟩
      rw [setWorker, workers_completeToolRequest hcomplete]
    · cases hst
  | stop =>
    cases hst
    exact .inl rfl

end

end ToolWorld

/-- Calls stay where they are, and keep the results they have. -/
structure KeepsCalls (s s' : ToolWorld π) : Prop where
  call : ∀ (seq : ℕ) (call : ToolCall) (outcome : Option (Option ToolCallResult)),
    s.waited[seq]? = some (call, outcome) → ∃ later, s'.waited[seq]? = some (call, later)
  result : ∀ (seq : ℕ) (call : ToolCall) (outcome : Option ToolCallResult),
    s.waited[seq]? = some (call, some outcome) → s'.waited[seq]? = some (call, some outcome)

theorem keepsCalls_of_kept
    (h : ∀ (seq : ℕ) p, s.waited[seq]? = some p → s'.waited[seq]? = some p) : KeepsCalls s s' :=
  ⟨fun seq _ outcome hcall => ⟨outcome, h seq _ hcall⟩, fun seq _ _ hcall => h seq _ hcall⟩

theorem keepsCalls_refl (s : ToolWorld π) : KeepsCalls s s :=
  keepsCalls_of_kept fun _ _ hp => hp

theorem CallsStep.keepsCalls (h : CallsStep s s') : KeepsCalls s s' := by
  cases h with
  | keeps hwaited _ _ =>
    exact keepsCalls_of_kept fun seq p hp => hwaited ▸ hp
  | admits call hnew hwaited _ _ =>
    refine keepsCalls_of_kept fun seq p hp => ?_
    rw [hwaited, List.getElem?_append_left (List.getElem?_eq_some_iff.mp hp).1]
    exact hp
  | completes seq call result hcall _ hwaited _ _ =>
    refine ⟨?_, ?_⟩
    · intro i other outcome hi
      by_cases heq : seq = i
      · subst heq
        rw [hcall, some.injEq] at hi
        cases hi
        refine ⟨some result, ?_⟩
        rw [hwaited, List.getElem?_set_self (List.getElem?_eq_some_iff.mp hcall).1]
      · refine ⟨outcome, ?_⟩
        rw [hwaited, List.getElem?_set_ne heq]
        exact hi
    · intro i other outcome hi
      have hne : seq ≠ i := by
        rintro rfl
        rw [hcall] at hi
        cases hi
      rw [hwaited, List.getElem?_set_ne hne]
      exact hi

/-! ### The results of the scope -/

/-- What holds of the results between their handler and their reader. -/
structure ResultsInv (s : ToolWorld π) : Prop where
  distinct : (s.waited.map fun p => p.1.callId).Nodup
  results : ∀ call result, (call, some (some result)) ∈ s.waited → result.callId = call.callId
  workers : ∀ seq worker result, s.workers seq = some worker → worker.pc.carried = some result →
    ∃ call outcome, s.waited[seq]? = some (call, outcome) ∧ result.callId = call.callId
  completed : ∀ result ∈ s.asyncToolCompleted,
    ∃ call, (call, some (some result)) ∈ s.waited ∧ call.mode = .async
  once : (s.asyncToolCompleted.map (·.callId)).Nodup
  outstanding : s.asyncToolOutstanding =
    s.waited.countP fun p => p.1.mode = .async ∧ p.2 = none

namespace ResultsInv

theorem init : ResultsInv (.init : ToolWorld π) where
  distinct := nodup_nil
  results := fun _ _ h => absurd h not_mem_nil
  workers := fun _ _ _ h _ => by cases h
  completed := fun _ h => absurd h not_mem_nil
  once := nodup_nil
  outstanding := rfl

section

variable (h : ResultsInv s)
include h

/-- A call id names one call. -/
theorem unique {i j : ℕ} {p q : ToolCall × Option (Option ToolCallResult)}
    (hi : s.waited[i]? = some p) (hj : s.waited[j]? = some q) (hid : p.1.callId = q.1.callId) :
    i = j := by
  have hmi : (s.waited.map fun p => p.1.callId)[i]? = some p.1.callId := by
    rw [List.getElem?_map, hi, map_some]
  have hmj : (s.waited.map fun p => p.1.callId)[j]? = some p.1.callId := by
    rw [List.getElem?_map, hj, map_some, hid]
  exact (List.getElem?_inj (List.getElem?_eq_some_iff.mp hmi).1 h.distinct).mp
    (hmi.trans hmj.symm)

theorem unique_mem {p q : ToolCall × Option (Option ToolCallResult)}
    (hp : p ∈ s.waited) (hq : q ∈ s.waited) (hid : p.1.callId = q.1.callId) : p = q := by
  obtain ⟨i, hi⟩ := mem_iff_getElem?.mp hp
  obtain ⟨j, hj⟩ := mem_iff_getElem?.mp hq
  obtain rfl := h.unique hi hj hid
  rw [hi, some.injEq] at hj
  exact hj

theorem keeps (hwaited : s'.waited = s.waited)
    (hcompleted : s'.asyncToolCompleted = s.asyncToolCompleted)
    (houtstanding : s'.asyncToolOutstanding = s.asyncToolOutstanding)
    (hworkers : ∀ seq worker result, s'.workers seq = some worker →
      worker.pc.carried = some result →
      ∃ call outcome, s'.waited[seq]? = some (call, outcome) ∧ result.callId = call.callId) :
    ResultsInv s' where
  distinct := hwaited ▸ h.distinct
  results := hwaited ▸ h.results
  workers := hworkers
  completed := by
    rw [hcompleted, hwaited]
    exact h.completed
  once := hcompleted ▸ h.once
  outstanding := by
    rw [houtstanding, hwaited]
    exact h.outstanding

theorem admits {call : ToolCall}
    (hnew : ∀ p ∈ s.waited, p.1.callId ≠ call.callId)
    (hwaited : s'.waited = s.waited ++ [(call, none)])
    (hcompleted : s'.asyncToolCompleted = s.asyncToolCompleted)
    (houtstanding : s'.asyncToolOutstanding =
      if call.mode = .async then s.asyncToolOutstanding + 1 else s.asyncToolOutstanding)
    (hworkers : ∀ seq worker result, s'.workers seq = some worker →
      worker.pc.carried = some result →
      ∃ call outcome, s'.waited[seq]? = some (call, outcome) ∧ result.callId = call.callId) :
    ResultsInv s' where
  distinct := by
    rw [hwaited, map_append, nodup_append]
    refine ⟨h.distinct, nodup_singleton _, ?_⟩
    intro x hx y hy hxy
    obtain ⟨p, hp, rfl⟩ := List.mem_map.mp hx
    rw [map_singleton, mem_singleton] at hy
    exact hnew p hp (hxy.trans hy)
  results := by
    intro other result hmem
    rw [hwaited, mem_append, mem_singleton] at hmem
    rcases hmem with hmem | hmem
    · exact h.results other result hmem
    · cases hmem
  workers := hworkers
  completed := by
    intro result hmem
    rw [hcompleted] at hmem
    obtain ⟨other, hother, hmode⟩ := h.completed result hmem
    exact ⟨other, hwaited ▸ mem_append_left _ hother, hmode⟩
  once := hcompleted ▸ h.once
  outstanding := by
    rw [houtstanding, hwaited, countP_append, h.outstanding]
    split <;> simp [*]

/-- A completed result is queued at most once, since its call had no result before. -/
theorem completes {seq : ℕ} {call : ToolCall} {result : Option ToolCallResult}
    (hcall : s.waited[seq]? = some (call, none))
    (hid : ∀ r, result = some r → r.callId = call.callId)
    (hwaited : s'.waited = s.waited.set seq (call, some result))
    (hcompleted : s'.asyncToolCompleted =
      if call.mode = .async then s.asyncToolCompleted ++ result.toList else s.asyncToolCompleted)
    (houtstanding : s'.asyncToolOutstanding =
      if call.mode = .async then s.asyncToolOutstanding - 1 else s.asyncToolOutstanding)
    (hworkers : ∀ seq worker result, s'.workers seq = some worker →
      worker.pc.carried = some result →
      ∃ call outcome, s'.waited[seq]? = some (call, outcome) ∧ result.callId = call.callId) :
    ResultsInv s' := by
  obtain ⟨hlt, hget⟩ := List.getElem?_eq_some_iff.mp hcall
  have hnew : (call, some result) ∈ s'.waited := by
    rw [hwaited]
    exact List.mem_set hlt _
  -- what had a result keeps it
  have hkept : ∀ other outcome, (other, some outcome) ∈ s.waited →
      (other, some outcome) ∈ s'.waited := by
    intro other outcome hmem
    obtain ⟨i, hi⟩ := mem_iff_getElem?.mp hmem
    have hne : seq ≠ i := by
      rintro rfl
      rw [hcall] at hi
      cases hi
    refine mem_iff_getElem?.mpr ⟨i, ?_⟩
    rw [hwaited, List.getElem?_set_ne hne, hi]
  have hids : s'.waited.map (fun p => p.1.callId) = s.waited.map fun p => p.1.callId := by
    rw [hwaited, map_set]
    refine ext_getElem? fun i => ?_
    by_cases hi : seq = i
    · subst hi
      rw [List.getElem?_set_self (by simpa using hlt), List.getElem?_map, hcall, map_some]
    · rw [List.getElem?_set_ne hi]
  -- the id of the call is not in the queue yet
  have hqueued : ∀ r ∈ s.asyncToolCompleted, r.callId ≠ call.callId := by
    intro r hr heq
    obtain ⟨other, hother, -⟩ := h.completed r hr
    have hsame := h.unique_mem hother (mem_of_getElem? hcall)
      ((h.results other r hother).symm.trans heq)
    cases hsame
  refine ⟨hids ▸ h.distinct, ?_, hworkers, ?_, ?_, ?_⟩
  · intro other r hmem
    rw [hwaited] at hmem
    rcases mem_or_eq_of_mem_set hmem with hmem | heq
    · exact h.results other r hmem
    · cases heq
      exact hid r rfl
  · intro r hmem
    rw [hcompleted] at hmem
    split at hmem
    · next hmode =>
      rcases mem_append.mp hmem with hmem | hmem
      · obtain ⟨other, hother, hasync⟩ := h.completed r hmem
        exact ⟨other, hkept other _ hother, hasync⟩
      · rw [Option.mem_toList] at hmem
        subst hmem
        exact ⟨call, hnew, hmode⟩
    · obtain ⟨other, hother, hasync⟩ := h.completed r hmem
      exact ⟨other, hkept other _ hother, hasync⟩
  · rw [hcompleted]
    split
    · rw [map_append, nodup_append]
      refine ⟨h.once, ?_, ?_⟩
      · cases result <;> simp
      · intro x hx y hy hxy
        obtain ⟨r, hr, rfl⟩ := List.mem_map.mp hx
        obtain ⟨fresh, hfresh, rfl⟩ := List.mem_map.mp hy
        rw [Option.mem_toList] at hfresh
        exact hqueued r hr (hxy.trans (hid fresh hfresh))
    · exact h.once
  · rw [houtstanding, h.outstanding, hwaited, countP_set hlt, hget]
    have hpos : call.mode = .async →
        0 < s.waited.countP fun p => p.1.mode = .async ∧ p.2 = none := by
      intro hmode
      exact countP_pos_iff.mpr ⟨_, mem_of_getElem? hcall, by simp [hmode]⟩
    split
    · next hmode =>
      have := hpos hmode
      rw [if_pos (by simp [hmode]), if_neg (by simp)]
      omega
    · next hmode => simp [hmode]

end

/-- **Every step of the scope keeps the invariant.** -/
theorem step [DecidableEq π] {sys : PathSystem π} (h : ResultsInv s) {e : ToolEvent π}
    (hst : s.step sys e = some s') : ResultsInv s' := by
  have hcalls := ToolWorld.callsStep_of_step hst
  have hworkers : ∀ seq worker result, s'.workers seq = some worker →
      worker.pc.carried = some result →
      ∃ call outcome, s'.waited[seq]? = some (call, outcome) ∧ result.callId = call.callId := by
    intro seq worker result hworker hcarried
    -- a call with the id of the result was there before, and still is
    have hbefore : ∃ call outcome, s.waited[seq]? = some (call, outcome) ∧
        result.callId = call.callId := by
      have hrecord : ∀ record, s.calls[seq]? = some record →
          s.waited[seq]? = some (record.admittedCall, record.admittedResult) := by
        intro record hrecord
        rw [ToolWorld.waited, List.getElem?_map, hrecord, map_some]
      rcases ToolWorld.workers_of_step hst with hsame | ⟨i, moved, hmoved, hcarries⟩
      · exact h.workers seq worker result (hsame ▸ hworker) hcarried
      · rw [hmoved] at hworker
        by_cases hi : seq = i
        · subst hi
          rw [Function.update_self, some.injEq] at hworker
          subst hworker
          rcases hcarries result hcarried with ⟨before, hw, hc⟩ | ⟨record, hr, hid⟩
          · exact h.workers seq before result hw hc
          · exact ⟨_, _, hrecord record hr, hid⟩
        · rw [Function.update_of_ne hi] at hworker
          exact h.workers seq worker result hworker hcarried
    obtain ⟨call, outcome, hcall, hid⟩ := hbefore
    obtain ⟨later, hlater⟩ := hcalls.keepsCalls.call seq call outcome hcall
    exact ⟨call, later, hlater, hid⟩
  cases hcalls with
  | keeps hwaited hcompleted houtstanding =>
    exact h.keeps hwaited hcompleted houtstanding hworkers
  | admits call hnew hwaited hcompleted houtstanding =>
    exact h.admits hnew hwaited hcompleted houtstanding hworkers
  | completes seq call result hcall hcarried hwaited hcompleted houtstanding =>
    refine h.completes hcall ?_ hwaited hcompleted houtstanding hworkers
    intro r hr
    obtain ⟨worker, hworker, hpc⟩ := hcarried r hr
    obtain ⟨other, outcome, hother, hid⟩ := h.workers seq worker r hworker hpc
    rw [hcall] at hother
    cases hother
    exact hid

end ResultsInv

/-! ### Runs -/

/-- A record of the call. -/
def AdmittedAt (s : ToolWorld π) (call : ToolCall) (seq : ℕ) : Prop :=
  ∃ outcome, s.waited[seq]? = some (call, outcome)

/-- The call came to this outcome. -/
def CameTo (s : ToolWorld π) (call : ToolCall) (outcome : Option ToolCallResult) : Prop :=
  (call, some outcome) ∈ s.waited

theorem AdmittedAt.mono {call : ToolCall} {seq : ℕ} (h : AdmittedAt s call seq)
    (hkeeps : KeepsCalls s s') : AdmittedAt s' call seq :=
  h.elim fun outcome hcall => hkeeps.call seq call outcome hcall

theorem CameTo.mono {call : ToolCall} {outcome : Option ToolCallResult} (h : CameTo s call outcome)
    (hkeeps : KeepsCalls s s') : CameTo s' call outcome := by
  obtain ⟨seq, hseq⟩ := mem_iff_getElem?.mp h
  exact mem_of_getElem? (hkeeps.result seq call outcome hseq)

/-- What a run has done, in the order of its list. -/
def ToolRun.Inv (s : ToolWorld π) (run : ToolRun) : Prop :=
  match run.pc with
  | .admitting remaining blocking => ∃ done, run.calls = done ++ remaining ∧
      List.Forall₂ (AdmittedAt s) (done.filter ToolCall.isBlocking) blocking
  | .reading remaining outcomes => ∃ done rest,
      run.calls.filter ToolCall.isBlocking = done ++ rest ∧
        List.Forall₂ (CameTo s) done outcomes ∧ List.Forall₂ (AdmittedAt s) rest remaining
  | .returned _ => True
  | .failed => True

theorem ToolRun.Inv.mono {run : ToolRun} (h : run.Inv s) (hkeeps : KeepsCalls s s') :
    run.Inv s' := by
  obtain ⟨calls, pc⟩ := run
  cases pc with
  | admitting remaining blocking =>
    obtain ⟨done, hcalls, hblocking⟩ := h
    exact ⟨done, hcalls, hblocking.imp fun _ _ hseq => hseq.mono hkeeps⟩
  | reading remaining outcomes =>
    obtain ⟨done, rest, hcalls, houtcomes, hremaining⟩ := h
    exact ⟨done, rest, hcalls, houtcomes.imp fun _ _ hcame => hcame.mono hkeeps,
      hremaining.imp fun _ _ hseq => hseq.mono hkeeps⟩
  | returned results | failed => trivial

/-- The record `admitToolCall` returns is one of the call. -/
theorem admitted_of_admission {call : ToolCall} {seq : ℕ} (h : s.admission call = some seq) :
    AdmittedAt (s.admitToolCall call) call seq := by
  unfold ToolWorld.admission at h
  split at h
  · next hnone =>
    cases h
    rw [List.findIdx?_eq_none_iff] at hnone
    have hnew : ¬ (s.calls.any fun record => record.admittedCall.callId == call.callId) = true := by
      rw [List.any_eq_true]
      rintro ⟨record, hmem, hid⟩
      rw [hnone record hmem] at hid
      cases hid
    refine ⟨none, ?_⟩
    rw [ToolWorld.admitToolCall, if_neg hnew, ToolWorld.waited]
    simp
  · next found hfound =>
    split at h
    · next hsame =>
      cases h
      obtain ⟨record, hrecord, hcall⟩ := (Option.any_eq_true _ _).mp hsame
      have hcall : record.admittedCall = call := by simpa using hcall
      have hold : (s.calls.any fun record => record.admittedCall.callId == call.callId) = true :=
        List.any_eq_true.mpr ⟨record, mem_of_getElem? hrecord, by simp [hcall]⟩
      refine ⟨record.admittedResult, ?_⟩
      rw [ToolWorld.admitToolCall, if_pos hold, ToolWorld.waited, List.getElem?_map, hrecord,
        map_some, hcall]
    · cases h

/-- The last transaction of a run empties the queue of completions, and keeps those it finds. -/
theorem completedAsync_spec {found : List ToolCallResult}
    (h : s.completedAsync = some (found, s')) :
    s' = { s with asyncToolCompleted := [] } ∧ found = s.asyncToolCompleted.filter s.canonical ∧
      (found = [] → s.asyncToolOutstanding ≤ 0) := by
  simp only [ToolWorld.completedAsync, bind_eq_some_iff] at h
  obtain ⟨⟨ready, drained⟩, htake, h⟩ := h
  have hdrained : drained = { s with asyncToolCompleted := [] } ∧ ready = s.asyncToolCompleted := by
    unfold ToolWorld.takeAsyncToolCompletions at htake
    split at htake
    · next first rest hqueue =>
      cases htake
      exact ⟨rfl, hqueue.symm⟩
    · next hqueue =>
      split at htake
      · cases htake
        rw [← hqueue]
        exact ⟨rfl, rfl⟩
      · cases htake
  obtain ⟨rfl, rfl⟩ := hdrained
  split at h
  · cases h
  · next hready =>
    cases h
    refine ⟨rfl, rfl, ?_⟩
    intro hnil
    by_contra hpos
    refine hready ?_
    simpa [hnil] using hpos

namespace ToolResults

/-- The invariant of the scope and of every run. -/
structure Inv (w : ToolResults π) : Prop where
  scope : ResultsInv w.scope
  runs : ∀ (i : ℕ) (run : ToolRun), w.runs[i]? = some run → run.Inv w.scope

variable {w w' : ToolResults π} {i : ℕ} {run : ToolRun}

/-- A step of one run, and of the scope. -/
theorem Inv.setRun (h : w.Inv) {scope : ToolWorld π} (hscope : ResultsInv scope)
    (hkeeps : KeepsCalls w.scope scope) (hrun : run.Inv scope) :
    Inv { w.setRun i run with scope } := by
  refine ⟨hscope, ?_⟩
  intro j other hother
  have hother : (w.runs.set i run)[j]? = some other := hother
  by_cases hij : i = j
  · subst hij
    rw [List.getElem?_set] at hother
    split at hother
    · split at hother <;> cases hother
      exact hrun
    · contradiction
  · rw [List.getElem?_set_ne hij] at hother
    exact (h.runs j other hother).mono hkeeps

theorem Inv.admitNext (h : w.Inv) (hadmitted : ∀ call, ResultsInv (w.scope.admitToolCall call))
    (hst : w.admitNext i = some w') : w'.Inv := by
  unfold ToolResults.admitNext at hst
  split at hst
  · next calls blocking hrun =>
    cases hst
    obtain ⟨done, hcalls, hblocking⟩ := h.runs i _ hrun
    refine h.setRun h.scope (keepsCalls_refl _) ?_
    refine ⟨[], calls.filter ToolCall.isBlocking, (nil_append _).symm, .nil, ?_⟩
    rw [List.append_nil] at hcalls
    exact (show calls = done from hcalls) ▸ hblocking
  · next calls call rest blocking hrun =>
    split at hst
    · cases hst
      exact h.setRun h.scope (keepsCalls_refl _) trivial
    · next seq hadmission =>
      cases hst
      obtain ⟨done, hcalls, hblocking⟩ := h.runs i _ hrun
      have hkeeps := (ToolWorld.callsStep_admitToolCall w.scope call).keepsCalls
      refine h.setRun (hadmitted call) hkeeps ⟨done ++ [call], ?_, ?_⟩
      · rw [append_assoc]
        exact hcalls
      · have hblocking := hblocking.imp fun _ _ hseq => hseq.mono hkeeps
        rw [filter_append]
        cases hmode : call.mode with
        | async =>
          rw [if_pos rfl, filter_cons_of_neg (by simp [ToolCall.isBlocking, hmode]),
            filter_nil, List.append_nil]
          exact hblocking
        | blocking =>
          rw [if_neg (by simp), filter_cons_of_pos (by simp [ToolCall.isBlocking, hmode]),
            filter_nil]
          exact rel_append hblocking (.cons (admitted_of_admission hadmission) .nil)
  · cases hst

theorem Inv.read (h : w.Inv) (hst : w.read i = some w') : w'.Inv := by
  unfold ToolResults.read at hst
  split at hst
  · next calls seq remaining outcomes hrun =>
    obtain ⟨outcome, houtcome, rfl⟩ := map_eq_some_iff.mp hst
    obtain ⟨record, hrecord, hresult⟩ := bind_eq_some_iff.mp houtcome
    obtain ⟨done, rest, hcalls, houtcomes, hremaining⟩ := h.runs i _ hrun
    cases hremaining with
    | @cons call _ rest _ hseq hremaining =>
      obtain ⟨found, hfound⟩ := hseq
      have hcame : CameTo w.scope call outcome := by
        refine mem_of_getElem? (i := seq) ?_
        rw [ToolWorld.waited, List.getElem?_map, hrecord, map_some, some.injEq,
          Prod.mk.injEq] at hfound ⊢
        exact ⟨hfound.1, hresult⟩
      refine h.setRun h.scope (keepsCalls_refl _) ⟨done ++ [call], rest, ?_, ?_, hremaining⟩
      · rw [append_assoc]
        exact hcalls
      · exact rel_append houtcomes (.cons hcame .nil)
  · cases hst

theorem Inv.collect (h : w.Inv) (hst : w.collect i = some w') : w'.Inv := by
  unfold ToolResults.collect at hst
  split at hst
  · obtain ⟨⟨found, scope⟩, hfound, rfl⟩ := map_eq_some_iff.mp hst
    obtain ⟨rfl, -, -⟩ := completedAsync_spec hfound
    refine h.setRun ?_ (keepsCalls_of_kept fun _ _ hp => hp) trivial
    exact ⟨h.scope.distinct, h.scope.results, h.scope.workers,
      fun _ hmem => absurd hmem not_mem_nil, nodup_nil, h.scope.outstanding⟩
  · cases hst

/-- **Every step keeps the invariant.** -/
theorem Inv.step [DecidableEq π] {sys : PathSystem π} (h : w.Inv) {e : ToolRunEvent π}
    (hst : w.step sys e = some w') : w'.Inv := by
  cases e with
  | move event =>
    obtain ⟨scope, hscope, rfl⟩ := map_eq_some_iff.mp hst
    have hkeeps := (ToolWorld.callsStep_of_step hscope).keepsCalls
    exact ⟨h.scope.step hscope, fun i run hrun => (h.runs i run hrun).mono hkeeps⟩
  | call calls =>
    cases hst
    refine ⟨h.scope, ?_⟩
    intro i run hrun
    rcases Nat.lt_or_ge i w.runs.length with hlt | hge
    · rw [List.getElem?_append_left hlt] at hrun
      exact h.runs i run hrun
    · rw [List.getElem?_append_right hge, List.getElem?_singleton] at hrun
      split at hrun
      · cases hrun
        exact ⟨[], rfl, .nil⟩
      · cases hrun
  | admitNext i =>
    have hadmitted : ∀ call, ResultsInv (w.scope.admitToolCall call) := by
      intro call
      have hst : w.scope.step sys (.admitCall call) = some (w.scope.admitToolCall call) := rfl
      exact h.scope.step hst
    exact h.admitNext hadmitted hst
  | read i => exact h.read hst
  | collect i => exact h.collect hst
  | interrupt i =>
    simp only [ToolResults.step] at hst
    split at hst
    · cases hst
    · cases hst
      exact h.setRun h.scope (keepsCalls_refl _) trivial
    · cases hst

theorem inv_of_reachable [DecidableEq π] {sys : PathSystem π}
    (h : Reachable (ToolResults.step sys) .init w) : w.Inv := by
  refine h.invariant (I := Inv) ⟨.init, ?_⟩ fun _ _ _ hinv _ hst => hinv.step hst
  intro i run hrun
  cases hrun

end ToolResults

/-! ### What a run returns -/

theorem ResultsInv.cameTo_unique (h : ResultsInv s) {call other : ToolCall}
    {outcome later : Option ToolCallResult} (hcall : CameTo s call outcome)
    (hother : CameTo s other later) (hid : call.callId = other.callId) :
    call = other ∧ outcome = later := by
  have hsame := h.unique_mem hcall hother hid
  cases hsame
  exact ⟨rfl, rfl⟩

theorem hasResult_iff {call : ToolCall} :
    s.hasResult call ↔ ∃ result, CameTo s call (some result) := by
  unfold ToolWorld.hasResult
  rw [List.any_eq_true]
  constructor
  · rintro ⟨⟨other, outcome⟩, hmem, hsome⟩
    rw [Bool.and_eq_true, beq_iff_eq] at hsome
    obtain ⟨rfl, hsome⟩ := hsome
    obtain ⟨done, rfl, hdone⟩ := (Option.any_eq_true _ _).mp hsome
    obtain ⟨result, rfl⟩ := isSome_iff_exists.mp hdone
    exact ⟨result, hmem⟩
  · rintro ⟨result, hmem⟩
    exact ⟨_, hmem, by simp⟩

/-- The ids of the results read are those of the calls that have one. -/
theorem map_callId_reduceOption (h : ResultsInv s) {calls : List ToolCall}
    {outcomes : List (Option ToolCallResult)} (hcame : List.Forall₂ (CameTo s) calls outcomes) :
    outcomes.reduceOption.map (·.callId) = (calls.filter s.hasResult).map (·.callId) := by
  induction hcame with
  | nil => rfl
  | @cons call outcome calls outcomes hcall _ ih =>
    cases outcome with
    | none =>
      have hnone : ¬ s.hasResult call = true := by
        rw [hasResult_iff]
        rintro ⟨result, hresult⟩
        obtain ⟨-, hfalse⟩ := h.cameTo_unique hcall hresult rfl
        cases hfalse
      rw [reduceOption_cons_of_none, filter_cons_of_neg hnone]
      exact ih
    | some result =>
      rw [reduceOption_cons_of_some, filter_cons_of_pos (hasResult_iff.mpr ⟨_, hcall⟩),
        map_cons, map_cons, ih, h.results call result hcall]

/-- The ids of what a run returns are distinct, but for the entries it answers twice. -/
theorem nodup_results (h : ResultsInv s) {calls : List ToolCall}
    {outcomes : List (Option ToolCallResult)}
    (hcame : List.Forall₂ (CameTo s) (calls.filter ToolCall.isBlocking) outcomes) :
    ((outcomes.reduceOption ++ s.asyncToolCompleted.filter s.canonical).map (·.callId)).Nodup ↔
      (s.answered calls).Nodup := by
  have hblocking : ∀ call ∈ s.answered calls, call.mode = .blocking ∧
      ∃ result, CameTo s call (some result) := by
    intro call hmem
    obtain ⟨hmem, hresult⟩ := mem_filter.mp hmem
    have hmode : call.isBlocking = true := (mem_filter.mp hmem).2
    exact ⟨by simpa [ToolCall.isBlocking] using hmode, hasResult_iff.mp hresult⟩
  rw [map_append, map_callId_reduceOption h hcame, nodup_append]
  constructor
  · rintro ⟨hnodup, -, -⟩
    exact hnodup.of_map _
  · intro hnodup
    refine ⟨?_, ?_, ?_⟩
    · refine hnodup.map_on ?_
      intro call hcall other hother hid
      obtain ⟨-, result, hresult⟩ := hblocking call hcall
      obtain ⟨-, later, hlater⟩ := hblocking other hother
      exact (h.cameTo_unique hresult hlater hid).1
    · exact h.once.sublist (filter_sublist.map _)
    · -- a call is blocking or asynchronous
      intro x hx y hy hxy
      obtain ⟨call, hcall, rfl⟩ := List.mem_map.mp hx
      obtain ⟨result, hresult, rfl⟩ := List.mem_map.mp hy
      obtain ⟨hmode, first, hfirst⟩ := hblocking call hcall
      obtain ⟨other, hother, hasync⟩ := h.completed result (mem_filter.mp hresult).1
      obtain ⟨rfl, -⟩ := h.cameTo_unique hfirst hother (hxy.trans (h.results other result hother))
      rw [hmode] at hasync
      cases hasync

theorem committed_of_canonical (h : ResultsInv s) {result : ToolCallResult}
    (hmem : result ∈ s.asyncToolCompleted) (hcanonical : s.canonical result = true) :
    ∃ call, call.mode = .async ∧ CameTo s call (some result) ∧
      s.asyncToolCommittedCalls result.callId = some call := by
  obtain ⟨call, hcall, hmode⟩ := h.completed result hmem
  refine ⟨call, hmode, hcall, ?_⟩
  unfold ToolWorld.canonical at hcanonical
  split at hcanonical
  · cases hcanonical
  · next record hfound =>
    have hid := List.find?_some hfound
    have hrecord : (record.admittedCall, record.admittedResult) ∈ s.waited :=
      List.mem_map.mpr ⟨record, List.mem_of_find?_eq_some hfound, rfl⟩
    have hsame := h.unique_mem hrecord hcall
      ((beq_iff_eq.mp hid).trans (h.results call result hcall))
    rw [Prod.mk.injEq] at hsame
    rw [← hsame.1]
    exact beq_iff_eq.mp hcanonical

/-- **What a run of `runToolCalls` returns.**  In every state of every run of the scope in which one
collects its results: their ids are distinct unless an answered blocking call is listed twice; every
blocking call of the list has come to an outcome, and its result, if it has one, is among them; any
other is the result of an asynchronous call committed as it was admitted; and there is one of these
if an asynchronous call is still outstanding. -/
theorem tool_results_complete [DecidableEq π] {sys : PathSystem π} {w w' : ToolResults π} {i : ℕ}
    {calls : List ToolCall} {results : List ToolCallResult}
    (h : Reachable (ToolResults.step sys) .init w)
    (hst : w.step sys (.collect i) = some w')
    (hrun : w'.runs[i]? = some ⟨calls, .returned results⟩) :
    ((results.map (·.callId)).Nodup ↔ (w.scope.answered calls).Nodup) ∧
    (∀ call ∈ calls, call.mode = .blocking →
      ∃ outcome, CameTo w.scope call outcome ∧ ∀ result ∈ outcome, result ∈ results) ∧
    (∀ result ∈ results,
      (∃ call ∈ calls, call.mode = .blocking ∧ CameTo w.scope call (some result)) ∨
      ∃ call, call.mode = .async ∧ CameTo w.scope call (some result) ∧
        w.scope.asyncToolCommittedCalls result.callId = some call) ∧
    ((∃ call, call.mode = .async ∧ (call, none) ∈ w.scope.waited) →
      ∃ result ∈ results, ∃ call, call.mode = .async ∧ CameTo w.scope call (some result) ∧
        w.scope.asyncToolCommittedCalls result.callId = some call) := by
  have hinv := ToolResults.inv_of_reachable h
  have hscope := hinv.scope
  simp only [ToolResults.step, ToolResults.collect] at hst
  split at hst
  case h_2 => cases hst
  next listed outcomes hreading =>
  obtain ⟨⟨found, scope⟩, hfound, rfl⟩ := map_eq_some_iff.mp hst
  obtain ⟨-, rfl, hwait⟩ := completedAsync_spec hfound
  have hlt : i < w.runs.length := (List.getElem?_eq_some_iff.mp hreading).1
  have hset : (w.runs.set i ⟨listed, .returned
      (outcomes.reduceOption ++ w.scope.asyncToolCompleted.filter w.scope.canonical)⟩)[i]? =
        some ⟨calls, .returned results⟩ := hrun
  rw [List.getElem?_set_self hlt] at hset
  cases hset
  -- every blocking entry has been read
  obtain ⟨done, rest, hcalls, hcame, hrest⟩ := hinv.runs i _ hreading
  cases hrest
  rw [List.append_nil] at hcalls
  have hcame : List.Forall₂ (CameTo w.scope) (calls.filter ToolCall.isBlocking) outcomes :=
    hcalls ▸ hcame
  refine ⟨nodup_results hscope hcame, ?_, ?_, ?_⟩
  · intro call hmem hmode
    have hlisted : call ∈ calls.filter ToolCall.isBlocking :=
      mem_filter.mpr ⟨hmem, by simp [ToolCall.isBlocking, hmode]⟩
    obtain ⟨outcome, houtcome, hcall⟩ := List.exists_of_forall₂_left hcame hlisted
    refine ⟨outcome, hcall, ?_⟩
    rintro result rfl
    exact mem_append_left _ (reduceOption_mem_iff.mpr houtcome)
  · intro result hmem
    rcases mem_append.mp hmem with hmem | hmem
    · obtain ⟨call, hlisted, hcall⟩ :=
        List.exists_of_forall₂_right hcame (reduceOption_mem_iff.mp hmem)
      obtain ⟨hlisted, hmode⟩ := mem_filter.mp hlisted
      exact .inl ⟨call, hlisted, by simpa [ToolCall.isBlocking] using hmode, hcall⟩
    · obtain ⟨hmem, hcanonical⟩ := mem_filter.mp hmem
      exact .inr (committed_of_canonical hscope hmem hcanonical)
  · rintro ⟨call, hmode, hout⟩
    have hpos : 0 < w.scope.asyncToolOutstanding := by
      rw [hscope.outstanding, Int.natCast_pos]
      exact countP_pos_iff.mpr ⟨_, hout, by simp [hmode]⟩
    have hne : w.scope.asyncToolCompleted.filter w.scope.canonical ≠ [] := by
      intro hnil
      have := hwait hnil
      omega
    obtain ⟨result, hresult⟩ := exists_mem_of_ne_nil _ hne
    obtain ⟨hmem, hcanonical⟩ := mem_filter.mp hresult
    exact ⟨result, mem_append_right _ hresult,
      committed_of_canonical hscope hmem hcanonical⟩

/-- **The scope counts its asynchronous calls right**: the counter is the number of those without an
outcome; each result that waits to be read is that of one of them, no two are of the same, and a
worker carries a result of its own call. -/
theorem async_results_accounted [DecidableEq π] {sys : PathSystem π} {w : ToolResults π}
    (h : Reachable (ToolResults.step sys) .init w) :
    w.scope.asyncToolOutstanding =
      w.scope.waited.countP (fun p => p.1.mode = .async ∧ p.2 = none) ∧
    (w.scope.asyncToolCompleted.map (·.callId)).Nodup ∧
    (∀ result ∈ w.scope.asyncToolCompleted, ∃! call, call.callId = result.callId ∧
      call.mode = .async ∧ CameTo w.scope call (some result)) ∧
    ∀ seq worker result, w.scope.workers seq = some worker → worker.pc.carried = some result →
      ∃ call outcome, w.scope.waited[seq]? = some (call, outcome) ∧
        result.callId = call.callId := by
  have hscope := (ToolResults.inv_of_reachable h).scope
  refine ⟨hscope.outstanding, hscope.once, fun result hresult => ?_, hscope.workers⟩
  obtain ⟨call, hcall, hmode⟩ := hscope.completed result hresult
  refine ⟨call, ⟨(hscope.results call result hcall).symm, hmode, hcall⟩, fun other hother => ?_⟩
  obtain ⟨hid, -, hother⟩ := hother
  exact (hscope.cameTo_unique hother hcall (hid.trans (hscope.results call result hcall))).1

end

/-! ### Two runs -/

/-- The steps that take the oldest request through its worker. -/
def execution (seq : ℕ) (output : Text) : List (ToolRunEvent (List Text)) :=
  [.move .take, .move .checkBefore, .move (.prepare .granted .unconstrained), .move .checkAfter,
    .move .publish, .move .launch, .move (.pass seq), .move (.enter seq),
    .move (.record seq output [] [] none), .move (.deliver seq), .move (.complete seq)]

/-- A blocking call and an asynchronous one, which is committed before the run collects. -/
def mixedCalls : List ToolCall :=
  [exampleCall ['a'], { exampleCall ['b'] with mode := .async }]

def mixedRun : List (ToolRunEvent (List Text)) :=
  [.call mixedCalls, .admitNext 0, .admitNext 0, .admitNext 0] ++ execution 0 ['x'] ++
    execution 1 ['y'] ++ [.read 0, .move (.acknowledge [] mixedCalls)]

def exampleOutput (call : ToolCall) (output : Text) : ToolCallResult :=
  ToolWorld.workerResult call .granted output [] [] none

/-- What the first run returns next. -/
def collected (w : ToolResults (List Text)) : Option ToolRun :=
  (w.step absolutePaths (.collect 0)).bind fun w' => w'.runs[0]?

theorem tool_results_complete_in_mixedRun :
    ∃ w w' : ToolResults (List Text), ∃ results : List ToolCallResult,
      Reachable (ToolResults.step absolutePaths) .init w ∧
      w'.runs[0]? = some ⟨mixedCalls, .returned results⟩ ∧
      results.map (·.callId) = [['a'], ['b']] ∧
      ((results.map (·.callId)).Nodup ↔ (w.scope.answered mixedCalls).Nodup) := by
  have hrun : (Machine.run (ToolResults.step absolutePaths) .init mixedRun).any
      (fun w => collected w == some ⟨mixedCalls, .returned
        (List.zipWith exampleOutput mixedCalls [['x'], ['y']])⟩) = true := by
    decide +kernel
  obtain ⟨w, hreach, hcollected⟩ := exists_reachable_of_run hrun
  obtain ⟨w', hst, hresults⟩ := bind_eq_some_iff.mp (beq_iff_eq.mp hcollected)
  exact ⟨w, w', _, hreach, hresults, rfl, (tool_results_complete hreach hst hresults).1⟩

/-- A blocking call listed twice. -/
def repeatedRun : List (ToolRunEvent (List Text)) :=
  [.call [exampleCall ['a'], exampleCall ['a']], .admitNext 0, .admitNext 0, .admitNext 0] ++
    execution 0 ['x'] ++ [.read 0, .read 0]

/-- **Both entries of a call listed twice are answered**, with the same id. -/
theorem repeated_call_answered_twice :
    ∃ w w' : ToolResults (List Text), ∃ results : List ToolCallResult,
      Reachable (ToolResults.step absolutePaths) .init w ∧
      w.step absolutePaths (.collect 0) = some w' ∧
      w'.runs[0]? = some ⟨[exampleCall ['a'], exampleCall ['a']], .returned results⟩ ∧
      ¬ (results.map (·.callId)).Nodup := by
  have hrun : (Machine.run (ToolResults.step absolutePaths) .init repeatedRun).any
      (fun w => collected w == some ⟨[exampleCall ['a'], exampleCall ['a']], .returned
        [exampleOutput (exampleCall ['a']) ['x'], exampleOutput (exampleCall ['a']) ['x']]⟩) =
          true := by
    decide +kernel
  obtain ⟨w, hreach, hcollected⟩ := exists_reachable_of_run hrun
  obtain ⟨w', hst, hresults⟩ := bind_eq_some_iff.mp (beq_iff_eq.mp hcollected)
  exact ⟨w, w', _, hreach, hst, hresults, by decide⟩

theorem async_results_accounted_in_mixedRun :
    ∃ w : ToolResults (List Text), Reachable (ToolResults.step absolutePaths) .init w ∧
      w.scope.asyncToolOutstanding = 1 ∧ w.scope.asyncToolOutstanding =
        w.scope.waited.countP (fun p => p.1.mode = .async ∧ p.2 = none) := by
  have hrun : (Machine.run (ToolResults.step absolutePaths) .init (mixedRun.take 15)).any
      (·.scope.asyncToolOutstanding == 1) = true := by
    decide +kernel
  obtain ⟨w, hreach, hone⟩ := exists_reachable_of_run hrun
  exact ⟨w, hreach, beq_iff_eq.mp hone, (async_results_accounted hreach).1⟩

end HaskellAgent
