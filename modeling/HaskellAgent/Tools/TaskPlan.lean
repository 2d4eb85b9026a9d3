import HaskellAgent.Lib.Machine
import HaskellAgent.Loop.Input
import Mathlib.Data.List.Nodup

/-!
# The task plan of a session

The plan is persisted first and then published in memory, under a lock; taking and restoring its
reminder do not take the lock, and may come between the reading and the writing of a publication.
Each publication advances the generation, which a restored reminder has to match.
-/

open List

namespace HaskellAgent

/-! ### The memory -/

inductive TaskPlanStatus
  | pending
  | inProgress
  | completed
  deriving DecidableEq

structure TaskPlanItem where
  taskPlanStep : Text
  taskPlanStatus : TaskPlanStatus
  deriving DecidableEq

structure TaskPlan where
  taskPlanExplanation : Option Text
  taskPlanItems : List TaskPlanItem
  deriving DecidableEq

structure CurrentTaskPlan where
  currentTaskPlanRevision : Int64
  currentTaskPlanValue : TaskPlan
  deriving DecidableEq

inductive TaskPlanReminderState
  | inactive
  | pending
  | consumed
  deriving DecidableEq

inductive TaskPlanMemory
  | empty (generation : ℤ)
  | present (generation : ℤ) (current : CurrentTaskPlan) (reminder : TaskPlanReminderState)
  deriving DecidableEq

structure TaskPlanReminder where
  generation : ℤ
  current : CurrentTaskPlan
  deriving DecidableEq

def taskPlanGeneration : TaskPlanMemory → ℤ
  | .empty generation => generation
  | .present generation _ _ => generation

def currentTaskPlan : TaskPlanMemory → Option CurrentTaskPlan
  | .empty _ => none
  | .present _ current _ => some current

def initialTaskPlanMemory : Option CurrentTaskPlan → TaskPlanMemory
  | none => .empty 0
  | some current => .present 0 current .pending

def nextTaskPlanGeneration (memory : TaskPlanMemory) : ℤ := taskPlanGeneration memory + 1

def resumeTaskPlanMemory (current : Option CurrentTaskPlan) (memory : TaskPlanMemory) :
    TaskPlanMemory :=
  let generation := nextTaskPlanGeneration memory
  match current with
  | none => .empty generation
  | some value => .present generation value .pending

def publishTaskPlanMemory (current : CurrentTaskPlan) (memory : TaskPlanMemory) : TaskPlanMemory :=
  .present (nextTaskPlanGeneration memory) current .inactive

def clearTaskPlanMemory (memory : TaskPlanMemory) : TaskPlanMemory :=
  .empty (nextTaskPlanGeneration memory)

def takeTaskPlanReminderStep : TaskPlanMemory → TaskPlanMemory × Option TaskPlanReminder
  | .present generation current .pending =>
    (.present generation current .consumed, some ⟨generation, current⟩)
  | memory => (memory, none)

def restoreTaskPlanReminderStep (reminder : TaskPlanReminder) : TaskPlanMemory → TaskPlanMemory
  | .present generation current .consumed =>
    if generation = reminder.generation ∧ current = reminder.current then
      .present generation current .pending
    else .present generation current .consumed
  | memory => memory

/-! ### The operations -/

inductive TaskPlanOperation
  | replace (plan : TaskPlan)
  | clear
  | reset (current : Option CurrentTaskPlan)
  deriving DecidableEq

/-- What an operation writes. -/
inductive TaskPlanWrite
  | publish (current : CurrentTaskPlan)
  | clear
  | resume (current : Option CurrentTaskPlan)
  deriving DecidableEq

def TaskPlanWrite.modify : TaskPlanWrite → TaskPlanMemory → TaskPlanMemory
  | .publish current => publishTaskPlanMemory current
  | .clear => clearTaskPlanMemory
  | .resume current => resumeTaskPlanMemory current

def TaskPlanWrite.plan : TaskPlanWrite → Option CurrentTaskPlan
  | .publish current => some current
  | .clear => none
  | .resume current => current

def TaskPlanWrite.isReset : TaskPlanWrite → Bool
  | .resume _ => true
  | _ => false

/-- How far the holder of the lock is: nothing is persisted yet, its write is to be made, or the
memory was read and what replaces it is known. -/
inductive TaskPlanMutation
  | locked (operation : TaskPlanOperation)
  | accepted (write : TaskPlanWrite)
  | computed (write : TaskPlanWrite) (next : TaskPlanMemory)
  deriving DecidableEq

/-- The memory and the holder of the lock.  The rest records what has happened: the plans that were
persisted or reset to, the number of writes, the generations of the first plan and of resets, and
the reminders that were handed out, with the number of writes then, and restored. -/
structure TaskPlanWorld where
  memory : TaskPlanMemory
  mutation : Option TaskPlanMutation
  persisted : List (Option CurrentTaskPlan)
  writes : ℕ
  resets : List ℤ
  handed : List (TaskPlanReminder × ℕ)
  restored : List TaskPlanReminder
  deriving DecidableEq

/-- `interrupt` is an asynchronous exception: it reaches the persistence of a write, and a reset at
any time. -/
inductive TaskPlanEvent
  | lock (operation : TaskPlanOperation)
  | persist (answer : Option Int64)
  | read
  | write
  | interrupt
  | take
  | restore (reminder : TaskPlanReminder)

/-- A refused write ends the operation. -/
def TaskPlanWorld.accept (w : TaskPlanWorld) : Option TaskPlanWrite → TaskPlanWorld
  | none => { w with mutation := none }
  | some write =>
    { w with mutation := some (.accepted write), persisted := w.persisted ++ [write.plan] }

/-- One step of a thread; `hooks` says whether there are persistence hooks. -/
def taskPlanStep (hooks : Bool) (w : TaskPlanWorld) : TaskPlanEvent → Option TaskPlanWorld
  | .lock operation =>
    if w.mutation = none then some { w with mutation := some (.locked operation) } else none
  | .persist answer =>
    match w.mutation with
    | some (.locked (.replace plan)) =>
      let revision :=
        if hooks = true then answer
        else some ((currentTaskPlan w.memory).elim 1 (·.currentTaskPlanRevision + 1))
      some (w.accept (revision.map fun revision => .publish ⟨revision, plan⟩))
    | some (.locked .clear) =>
      some (w.accept (if hooks = true ∧ answer = none then none else some .clear))
    | _ => none
  | .read =>
    match w.mutation with
    | some (.accepted write) =>
      some { w with mutation := some (.computed write (write.modify w.memory)) }
    | some (.locked (.reset current)) =>
      some { w with
        mutation := some (.computed (.resume current) (resumeTaskPlanMemory current w.memory)) }
    | _ => none
  | .write =>
    match w.mutation with
    | some (.computed write next) =>
      some { w with
        memory := next
        mutation := none
        persisted := if write.isReset = true then w.persisted ++ [write.plan] else w.persisted
        writes := w.writes + 1
        resets := if write.isReset = true then w.resets ++ [taskPlanGeneration next] else w.resets }
    | _ => none
  | .interrupt =>
    match w.mutation with
    | some (.locked _) | some (.computed (.resume _) _) => some { w with mutation := none }
    | _ => none
  | .take =>
    let (memory, reminder) := takeTaskPlanReminderStep w.memory
    some { w with
      memory
      handed := w.handed ++ (reminder.map fun reminder => (reminder, w.writes)).toList }
  | .restore reminder =>
    -- reminders are made nowhere else
    if reminder ∈ w.handed.map Prod.fst then
      let memory := restoreTaskPlanReminderStep reminder w.memory
      some { w with
        memory
        restored := if memory = w.memory then w.restored else w.restored ++ [reminder] }
    else none

def newTaskPlanEnv (initial : Option CurrentTaskPlan) : TaskPlanWorld where
  memory := initialTaskPlanMemory initial
  mutation := none
  persisted := [initial]
  writes := 0
  resets := if initial.isSome then [0] else []
  handed := []
  restored := []

/-! ### What holds in every state -/

/-- The plan that is persisted and not yet in memory. -/
def TaskPlanWorld.inFlight (w : TaskPlanWorld) : List (Option CurrentTaskPlan) :=
  match w.mutation with
  | some (.accepted write) => [write.plan]
  | some (.computed write _) => if write.isReset = true then [] else [write.plan]
  | _ => []

structure TaskPlanSound (w : TaskPlanWorld) : Prop where
  /-- The memory has the last plan, up to the one that is just being published. -/
  lastPersisted : ∃ published, w.persisted = published ++ w.inFlight ∧
    published.getLast? = some (currentTaskPlan w.memory)
  handedOut : w.handed.length ≤ w.resets.length + w.restored.length
  /-- So it is for each reset by itself. -/
  perReset : w.resets.Nodup ∧ ∀ generation,
    w.handed.countP (·.1.generation = generation) ≤
      w.resets.count generation + w.restored.countP (·.generation = generation)
  /-- A reminder that was taken before the last write is not restored. -/
  stale : ∀ reminder n, (reminder, n) ∈ w.handed → n < w.writes →
    restoreTaskPlanReminderStep reminder w.memory = w.memory

/-- The reminder of a generation can be handed out. -/
def armed (generation : ℤ) : TaskPlanMemory → ℕ
  | .present current _ .pending => if current = generation then 1 else 0
  | _ => 0

/-- The memory has the generation of the number of writes, and what replaces it the next one. -/
structure TaskPlanInvariant (w : TaskPlanWorld) : Prop where
  generation : taskPlanGeneration w.memory = w.writes
  computed : ∀ write next, w.mutation = some (.computed write next) → next = write.modify w.memory
  accepted : ∀ write, w.mutation = some (.accepted write) → write.isReset = false
  lastPersisted : ∃ published, w.persisted = published ++ w.inFlight ∧
    published.getLast? = some (currentTaskPlan w.memory)
  handed : ∀ reminder n, (reminder, n) ∈ w.handed → reminder.generation = n ∧ n ≤ w.writes
  resets : w.resets.Nodup ∧ ∀ generation ∈ w.resets, generation ≤ w.writes
  counts : ∀ generation,
    w.handed.countP (·.1.generation = generation) + armed generation w.memory ≤
      w.resets.count generation + w.restored.countP (·.generation = generation)
  total : w.handed.length + armed w.writes w.memory ≤ w.resets.length + w.restored.length

variable {w w' : TaskPlanWorld} {memory : TaskPlanMemory} {reminder : TaskPlanReminder}

/-! ### Taking and restoring -/

/-- What is written depends on the generation that was read only. -/
theorem TaskPlanWrite.modify_congr (write : TaskPlanWrite) {m n : TaskPlanMemory}
    (h : taskPlanGeneration m = taskPlanGeneration n) : write.modify m = write.modify n := by
  cases write <;> simp [modify, publishTaskPlanMemory, clearTaskPlanMemory, resumeTaskPlanMemory,
    nextTaskPlanGeneration, h]

theorem TaskPlanWrite.modify_facts (write : TaskPlanWrite) (memory : TaskPlanMemory) :
    taskPlanGeneration (write.modify memory) = taskPlanGeneration memory + 1 ∧
      currentTaskPlan (write.modify memory) = write.plan ∧
      ∀ generation, armed generation (write.modify memory) ≤
        if write.isReset = true ∧ generation = taskPlanGeneration memory + 1 then 1 else 0 := by
  cases write with
  | publish current | clear => exact ⟨rfl, rfl, fun _ => Nat.zero_le _⟩
  | resume current =>
    cases current with
    | none => exact ⟨rfl, rfl, fun _ => Nat.zero_le _⟩
    | some value =>
      refine ⟨rfl, rfl, fun generation => le_of_eq ?_⟩
      simp only [modify, resumeTaskPlanMemory, armed, nextTaskPlanGeneration, isReset, true_and,
        eq_comm]

/-- Taking a reminder disarms the memory. -/
theorem take_facts (memory : TaskPlanMemory) :
    taskPlanGeneration (takeTaskPlanReminderStep memory).1 = taskPlanGeneration memory ∧
      currentTaskPlan (takeTaskPlanReminderStep memory).1 = currentTaskPlan memory ∧
      (∀ r ∈ (takeTaskPlanReminderStep memory).2, r.generation = taskPlanGeneration memory) ∧
      ∀ generation, armed generation (takeTaskPlanReminderStep memory).1 +
        (takeTaskPlanReminderStep memory).2.toList.countP (·.generation = generation) =
          armed generation memory := by
  cases memory with
  | empty generation => simp [takeTaskPlanReminderStep]
  | present generation current reminder =>
    cases reminder with
    | inactive | consumed => simp [takeTaskPlanReminderStep]
    | pending =>
      simp [takeTaskPlanReminderStep, taskPlanGeneration, currentTaskPlan, armed, countP_singleton]

/-- A restore that changes the memory arms it, where the generation is that of the reminder. -/
theorem restore_facts (reminder : TaskPlanReminder) (memory : TaskPlanMemory) :
    restoreTaskPlanReminderStep reminder memory = memory ∨
      taskPlanGeneration memory = reminder.generation ∧
      taskPlanGeneration (restoreTaskPlanReminderStep reminder memory) = reminder.generation ∧
      currentTaskPlan (restoreTaskPlanReminderStep reminder memory) = currentTaskPlan memory ∧
      ∀ generation, armed generation (restoreTaskPlanReminderStep reminder memory) =
        if reminder.generation = generation then 1 else 0 := by
  unfold restoreTaskPlanReminderStep
  split
  · split
    · next h => exact .inr ⟨h.1, h.1, rfl, fun generation => by rw [armed, h.1]⟩
    · exact .inl rfl
  · exact .inl rfl

/-! ### The steps -/

/-- A step of the lock leaves the memory and the reminders alone. -/
theorem TaskPlanInvariant.locks (h : TaskPlanInvariant w) {mutation : Option TaskPlanMutation}
    {persisted : List (Option CurrentTaskPlan)}
    (hcomputed : ∀ write next, mutation = some (.computed write next) →
      next = write.modify w.memory)
    (haccepted : ∀ write, mutation = some (.accepted write) → write.isReset = false)
    (hflight : ∃ added, persisted = w.persisted ++ added ∧
      { w with mutation }.inFlight = w.inFlight ++ added) :
    TaskPlanInvariant { w with mutation, persisted } where
  generation := h.generation
  computed := hcomputed
  accepted := haccepted
  lastPersisted := by
    obtain ⟨published, hpersisted, hlast⟩ := h.lastPersisted
    obtain ⟨added, rfl, hadded⟩ := hflight
    refine ⟨published, ?_, hlast⟩
    rw [hpersisted, append_assoc, ← hadded]
    rfl
  handed := h.handed
  resets := h.resets
  counts := h.counts
  total := h.total

theorem TaskPlanInvariant.accept (h : TaskPlanInvariant w) (hflight : w.inFlight = [])
    {write : Option TaskPlanWrite} (hwrite : ∀ made ∈ write, made.isReset = false) :
    TaskPlanInvariant (w.accept write) := by
  cases write with
  | none =>
    have hpersisted : w.persisted = w.persisted ++ [] := (append_nil _).symm
    exact h.locks nofun nofun ⟨[], hpersisted, by rw [hflight]; rfl⟩
  | some made =>
    refine h.locks nofun ?_ ⟨[made.plan], rfl, by rw [hflight]; rfl⟩
    rintro write ⟨⟩
    exact hwrite _ rfl

/-- Taking and restoring change what can be handed out, and nothing else of the plan. -/
theorem TaskPlanInvariant.reminders (h : TaskPlanInvariant w)
    (hgeneration : taskPlanGeneration memory = taskPlanGeneration w.memory)
    (hcurrent : currentTaskPlan memory = currentTaskPlan w.memory)
    (taken back : List TaskPlanReminder)
    (htaken : ∀ r ∈ taken, r.generation = taskPlanGeneration w.memory)
    (hback : ∀ r ∈ back, r.generation = taskPlanGeneration w.memory)
    (harmed : ∀ generation,
      armed generation memory + taken.countP (·.generation = generation) ≤
        armed generation w.memory + back.countP (·.generation = generation)) :
    TaskPlanInvariant { w with
      memory
      handed := w.handed ++ taken.map fun r => (r, w.writes)
      restored := w.restored ++ back } where
  generation := hgeneration.trans h.generation
  computed write next hnext :=
    (h.computed write next hnext).trans (write.modify_congr hgeneration.symm)
  accepted := h.accepted
  lastPersisted := by
    rw [hcurrent]
    exact h.lastPersisted
  handed r n hmem := by
    rcases mem_append.mp hmem with hold | hnew
    · exact h.handed r n hold
    · obtain ⟨r', hr', heq⟩ := mem_map.mp hnew
      cases heq
      exact ⟨(htaken _ hr').trans h.generation, le_rfl⟩
  resets := h.resets
  counts generation := by
    have hold := h.counts generation
    have hnew := harmed generation
    dsimp only
    rw [countP_append, countP_append, countP_map]
    simp only [Function.comp_def]
    omega
  total := by
    have hold := h.total
    have hnew := harmed w.writes
    have hall : ∀ l : List TaskPlanReminder,
        (∀ r ∈ l, r.generation = taskPlanGeneration w.memory) →
          l.countP (·.generation = (w.writes : ℤ)) = l.length := fun l hl =>
      countP_eq_length.mpr fun r hr => decide_eq_true ((hl r hr).trans h.generation)
    rw [hall taken htaken, hall back hback] at hnew
    simp only [length_append, length_map]
    omega

/-- The generations of resets after a write. -/
theorem TaskPlanInvariant.nextResets (h : TaskPlanInvariant w) (reset : Bool) {next : List ℤ}
    (hnext : next = if reset = true then w.resets ++ [(w.writes : ℤ) + 1] else w.resets) :
    next.Nodup ∧ (∀ generation ∈ next, generation ≤ (w.writes : ℤ) + 1) ∧
      (∀ generation, next.count generation = w.resets.count generation +
        if reset = true ∧ generation = (w.writes : ℤ) + 1 then 1 else 0) ∧
      next.length = w.resets.length + if reset = true then 1 else 0 := by
  subst hnext
  cases reset with
  | false =>
    refine ⟨h.resets.1, fun generation hmem => ?_, fun generation => by simp, by simp⟩
    have hle := h.resets.2 generation hmem
    omega
  | true =>
    refine ⟨nodup_append.mpr ⟨h.resets.1, nodup_singleton _, fun a ha b hb heq => ?_⟩,
      fun generation hmem => ?_, fun generation => ?_, by simp⟩
    · have hle := h.resets.2 a ha
      rw [heq, mem_singleton.mp hb] at hle
      omega
    · rcases mem_append.mp hmem with hold | hlast
      · have hle := h.resets.2 generation hold
        omega
      · exact Int.le_of_eq (mem_singleton.mp hlast)
    · rw [if_pos rfl, count_append, count_singleton]
      simp [@eq_comm _ generation]

theorem TaskPlanInvariant.written (h : TaskPlanInvariant w) {write : TaskPlanWrite}
    {next : TaskPlanMemory} (hmutation : w.mutation = some (.computed write next)) :
    TaskPlanInvariant { w with
      memory := next
      mutation := none
      persisted := if write.isReset = true then w.persisted ++ [write.plan] else w.persisted
      writes := w.writes + 1
      resets := if write.isReset = true then w.resets ++ [taskPlanGeneration next]
        else w.resets } := by
  obtain rfl := h.computed write next hmutation
  obtain ⟨hgeneration, hplan, harmed⟩ := write.modify_facts w.memory
  rw [h.generation] at hgeneration harmed
  obtain ⟨hnodup, hbound, hcount, hlength⟩ := h.nextResets write.isReset
    (congrArg (fun generation => if write.isReset = true then w.resets ++ [generation]
      else w.resets) hgeneration)
  refine ⟨hgeneration, nofun, nofun, ?_, fun r n hmem => ?_, ⟨hnodup, hbound⟩,
    fun generation => ?_, ?_⟩
  · -- what was in flight is published
    obtain ⟨published, hpersisted, -⟩ := h.lastPersisted
    rw [TaskPlanWorld.inFlight, hmutation] at hpersisted
    refine ⟨_, (append_nil _).symm, ?_⟩
    dsimp only at hpersisted ⊢
    rw [hplan]
    split
    · exact getLast?_concat
    · next hreset => rw [hpersisted, if_neg hreset, getLast?_concat]
  · exact ⟨(h.handed r n hmem).1, Nat.le_succ_of_le (h.handed r n hmem).2⟩
  · have hold := h.counts generation
    have hle := harmed generation
    dsimp only
    rw [hcount]
    omega
  · have hold := h.total
    have hle := harmed ((w.writes : ℤ) + 1)
    simp only [and_true] at hle
    push_cast
    rw [hlength]
    omega

theorem TaskPlanInvariant.step {hooks : Bool} {event : TaskPlanEvent} (h : TaskPlanInvariant w)
    (hstep : taskPlanStep hooks w event = some w') : TaskPlanInvariant w' := by
  have hpersisted : w.persisted = w.persisted ++ [] := (append_nil _).symm
  cases event with
  | lock operation =>
    simp only [taskPlanStep] at hstep
    split at hstep
    · next hfree =>
      cases hstep
      exact h.locks nofun nofun ⟨[], hpersisted, by simp [TaskPlanWorld.inFlight, hfree]⟩
    · cases hstep
  | persist answer =>
    simp only [taskPlanStep] at hstep
    split at hstep
    · next plan hlocked =>
      cases hstep
      refine h.accept (by rw [TaskPlanWorld.inFlight, hlocked]) fun made hmade => ?_
      obtain ⟨revision, -, rfl⟩ := Option.map_eq_some_iff.mp hmade
      rfl
    · next hlocked =>
      cases hstep
      refine h.accept (by rw [TaskPlanWorld.inFlight, hlocked]) fun made hmade => ?_
      split at hmade <;> cases hmade
      rfl
    · cases hstep
  | read =>
    simp only [taskPlanStep] at hstep
    split at hstep
    · next write haccepted =>
      cases hstep
      refine h.locks ?_ nofun ⟨[], hpersisted, ?_⟩
      · rintro _ _ ⟨⟩
        rfl
      · simp [TaskPlanWorld.inFlight, haccepted, h.accepted write haccepted]
    · next current hlocked =>
      cases hstep
      refine h.locks ?_ nofun ⟨[], hpersisted, ?_⟩
      · rintro _ _ ⟨⟩
        rfl
      · simp [TaskPlanWorld.inFlight, hlocked, TaskPlanWrite.isReset]
    · cases hstep
  | write =>
    simp only [taskPlanStep] at hstep
    split at hstep
    · next write next hcomputed =>
      cases hstep
      exact h.written hcomputed
    · cases hstep
  | interrupt =>
    simp only [taskPlanStep] at hstep
    split at hstep
    · next operation hlocked =>
      cases hstep
      exact h.locks nofun nofun ⟨[], hpersisted, by simp [TaskPlanWorld.inFlight, hlocked]⟩
    · next current next hcomputed =>
      cases hstep
      exact h.locks nofun nofun
        ⟨[], hpersisted, by simp [TaskPlanWorld.inFlight, hcomputed, TaskPlanWrite.isReset]⟩
    · cases hstep
  | take =>
    cases hstep
    obtain ⟨hgeneration, hcurrent, htaken, harmed⟩ := take_facts w.memory
    have hnext := h.reminders hgeneration hcurrent (takeTaskPlanReminderStep w.memory).2.toList []
      (by simpa using htaken) (by simp) fun generation => (harmed generation).le
    rw [append_nil, ← Option.toList_map] at hnext
    exact hnext
  | restore reminder =>
    simp only [taskPlanStep] at hstep
    split at hstep
    · cases hstep
      rcases restore_facts reminder w.memory with hsame | ⟨hold, hgeneration, hcurrent, harmed⟩
      · simpa [hsame] using h
      · split
        · next hsame => simpa [hsame] using h
        · have hnext := h.reminders (hgeneration.trans hold.symm) hcurrent [] [reminder]
            (by simp) (by simpa using hold.symm) fun generation => by
              rw [harmed, countP_singleton]
              simp
          rwa [map_nil, append_nil] at hnext
    · cases hstep

theorem taskPlanInvariant_new (initial : Option CurrentTaskPlan) :
    TaskPlanInvariant (newTaskPlanEnv initial) := by
  cases initial with
  | none => constructor <;> simp [newTaskPlanEnv, initialTaskPlanMemory, taskPlanGeneration, armed,
      TaskPlanWorld.inFlight, currentTaskPlan]
  | some current =>
    constructor <;> simp [newTaskPlanEnv, initialTaskPlanMemory, taskPlanGeneration, armed,
      TaskPlanWorld.inFlight, currentTaskPlan, count_singleton]

theorem TaskPlanInvariant.sound (h : TaskPlanInvariant w) : TaskPlanSound w where
  lastPersisted := h.lastPersisted
  handedOut := (Nat.le_add_right _ _).trans h.total
  perReset := ⟨h.resets.1, fun generation => (Nat.le_add_right _ _).trans (h.counts generation)⟩
  stale reminder n hmem hlt := by
    rcases restore_facts reminder w.memory with hsame | ⟨hold, -⟩
    · exact hsame
    · have hgeneration := (h.handed reminder n hmem).1
      have hmemory := h.generation
      omega

/-- **The plan in memory is the last one that was persisted or reset to**, up to the one that is just
being published; a reminder is handed out at most once for the first plan, each reset and each
restore that was accepted; and one taken before a later write is never accepted.  A refused write
changes nothing. -/
theorem taskPlan_sound (hooks : Bool) (initial : Option CurrentTaskPlan) :
    (∀ w, Machine.Reachable (taskPlanStep hooks) (newTaskPlanEnv initial) w → TaskPlanSound w) ∧
    ∀ w w' answer, taskPlanStep hooks w (.persist answer) = some w' → w'.mutation = none →
      w' = { w with mutation := none } := by
  refine ⟨fun w hw => ?_, fun w w' answer hstep hrefused => ?_⟩
  · exact (hw.invariant (taskPlanInvariant_new initial) fun _ _ _ h _ hstep => h.step hstep).sound
  · have haccept : ∀ write, (w.accept write).mutation = none →
        w.accept write = { w with mutation := none } := by
      rintro (_ | write) h
      · rfl
      · cases h
    simp only [taskPlanStep] at hstep
    split at hstep <;> cases hstep <;> exact haccept _ hrefused

/-- The reminder of a resumed plan is taken, the same plan is published again, and the reminder comes
back late. -/
theorem taskPlan_sound_in_lateRestore :
    ∃ w, Machine.Reachable (taskPlanStep true)
        (newTaskPlanEnv (some ⟨1, none, []⟩)) w ∧ w.writes = 1 ∧ TaskPlanSound w := by
  have hrun : (Machine.run (taskPlanStep true) (newTaskPlanEnv (some ⟨1, none, []⟩))
      [.lock (.replace ⟨none, []⟩), .take, .persist (some 1), .read, .write,
        .restore ⟨0, 1, none, []⟩]).any (fun w => w.writes = 1) = true := by decide
  obtain ⟨w, hw, hwrites⟩ := Machine.exists_reachable_of_run hrun
  exact ⟨w, hw, by simpa using hwrites, (taskPlan_sound true _).1 w hw⟩

end HaskellAgent
