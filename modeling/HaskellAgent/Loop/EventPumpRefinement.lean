import HaskellAgent.Loop.EventPump

/-!
# The event pump refines an in-order queue
-/

open List Option Function Machine

namespace HaskellAgent

variable {κ ε : Type*} {pump next : EventPump κ ε}

/-! ### Nodes and what they stand for -/

def CoalescedEvent.address : CoalescedEvent κ ε → ℕ
  | .appendedEvent _ _ buffer => buffer
  | .replacedEvent _ _ snapshot => snapshot

def EventPumpCommand.address : EventPumpCommand κ ε → Option ℕ
  | .deliverEvent _ => none
  | .deliverCoalescedEvent pending => some pending.address
  | .flushEvents flushed => some flushed

/-- A node with this text stands for these emissions. -/
inductive Accumulates : List (Emission κ ε) → CoalescedEvent κ ε → Text → Prop
  | appended (key : κ) (build : Text → ε) (buffer : ℕ) (text : Text)
      (more : List ((Text → ε) × Text)) :
      Accumulates (.appended key build text :: more.map fun m => .appended key m.1 m.2)
        (.appendedEvent key build buffer) (text ++ (more.map Prod.snd).flatten)
  | latest (key : κ) (build : Text → ε) (snapshot : ℕ) (text : Text)
      (more : List ((Text → ε) × Text)) :
      Accumulates (.latest key build text :: more.map fun m => .latest key m.1 m.2)
        (.replacedEvent key build snapshot) ((more.map Prod.snd).getLastD text)

namespace Accumulates

variable {group : List (Emission κ ε)} {pending : CoalescedEvent κ ε} {text : Text}

theorem coalesces (h : Accumulates group pending text) : Coalesces group (pending.build text) := by
  cases h with
  | appended key build buffer text more => exact .appended key build text more
  | latest key build snapshot text more => exact .latest key build text more

/-- A text of the key is appended. -/
theorem append {key : κ} {build : Text → ε} {buffer : ℕ}
    (h : Accumulates group (.appendedEvent key build buffer) text) (build' : Text → ε)
    (chunk : Text) :
    Accumulates (group ++ [.appended key build' chunk]) (.appendedEvent key build buffer)
      (text ++ chunk) := by
  cases h with
  | appended _ _ _ first more =>
    have hnew := Accumulates.appended key build buffer first (more ++ [(build', chunk)])
    simpa using hnew

/-- A snapshot of the key replaces the earlier ones. -/
theorem replace {key : κ} {build : Text → ε} {snapshot : ℕ}
    (h : Accumulates group (.replacedEvent key build snapshot) text) (build' : Text → ε)
    (new : Text) :
    Accumulates (group ++ [.latest key build' new]) (.replacedEvent key build snapshot) new := by
  cases h with
  | latest _ _ _ first more =>
    have hnew := Accumulates.latest key build snapshot first (more ++ [(build', new)])
    simpa using hnew

end Accumulates

/-- A node of the pump stands for these emissions. -/
inductive EventPump.Represents (pump : EventPump κ ε) :
    List (Emission κ ε) → EventPumpCommand κ ε → Prop
  | event (e : ε) : Represents pump [.event e] (.deliverEvent e)
  | coalesced {group : List (Emission κ ε)} {pending : CoalescedEvent κ ε} :
      Accumulates group pending (pump.content pending) →
      Represents pump group (.deliverCoalescedEvent pending)
  | flush (flushed : ℕ) : Represents pump [] (.flushEvents flushed)

/-- What a node stands for depends on its own text only. -/
theorem EventPump.Represents.congr {group : List (Emission κ ε)} {command : EventPumpCommand κ ε}
    (h : pump.Represents group command)
    (hcontent : ∀ c, command = .deliverCoalescedEvent c → next.content c = pump.content c) :
    next.Represents group command := by
  cases h with
  | event e => exact .event e
  | coalesced hacc =>
    refine .coalesced ?_
    rw [hcontent _ rfl]
    exact hacc
  | flush flushed => exact .flush flushed

/-! ### The transactions of the producers -/

/-- A command was put at the end of the queue; it is new, and it is the only one that may be the
tail. -/
structure Pushed (pump next : EventPump κ ε) (command : EventPumpCommand κ ε) : Prop where
  queue : next.eventPumpQueue = pump.eventPumpQueue ++ [command]
  tail : ∀ c, next.eventPumpTail = some c → command = .deliverCoalescedEvent c
  fresh : pump.fresh ≤ next.fresh
  address : ∀ a, command.address = some a → a = pump.fresh ∧ pump.fresh < next.fresh
  content : ∀ c : CoalescedEvent κ ε, c.address < pump.fresh → next.content c = pump.content c
  flushed : ∀ a < pump.fresh, next.flushed a = pump.flushed a

/-- The tail changed its text; nothing else did. -/
structure Merged (pump next : EventPump κ ε) (pending : CoalescedEvent κ ε) : Prop where
  tail : pump.eventPumpTail = some pending
  queue : next.eventPumpQueue = pump.eventPumpQueue
  sameTail : next.eventPumpTail = pump.eventPumpTail
  fresh : next.fresh = pump.fresh
  content : ∀ c : CoalescedEvent κ ε, c.address ≠ pending.address → next.content c = pump.content c
  flushed : next.flushed = pump.flushed

/-- What a transaction of a producer does: it pushes a node, adds to the tail, or pushes a flush. -/
inductive Enqueued (pump next : EventPump κ ε) : List (Emission κ ε) → PumpProgress κ ε → Prop
  | pushed {command : EventPumpCommand κ ε} {emission : Emission κ ε}
      {progress : PumpProgress κ ε} :
      Pushed pump next command → next.Represents [emission] command →
      (∀ f, progress ≠ .awaiting f) → Enqueued pump next [emission] progress
  | merged {p : CoalescedEvent κ ε} {emission : Emission κ ε} {progress : PumpProgress κ ε} :
      Merged pump next p →
      (∀ group, Accumulates group p (pump.content p) →
        Accumulates (group ++ [emission]) p (next.content p)) →
      (∀ f, progress ≠ .awaiting f) → Enqueued pump next [emission] progress
  | flush : Pushed pump next (.flushEvents pump.fresh) → next.flushed pump.fresh = false →
      Enqueued pump next [] (.awaiting pump.fresh)

@[simp] theorem clearEventPumpTail_tail (pump : EventPump κ ε) :
    (clearEventPumpTail pump).eventPumpTail = none := by
  unfold clearEventPumpTail
  split
  · assumption
  · rfl

/-- Closing the tail touches nothing else but its byte account. -/
theorem clearEventPumpTail_eq (pump : EventPump κ ε) :
    ∃ bytes, clearEventPumpTail pump
      = { pump with eventPumpTail := none, eventPumpTailBytes := bytes } := by
  unfold clearEventPumpTail
  split
  · next htail => exact ⟨pump.eventPumpTailBytes, by rw [← htail]⟩
  · exact ⟨0, rfl⟩

/-- Reserving payload touches only the byte accounts. -/
theorem reserveTailPayloadBytes_eq {oversize : Bool} {bytes : ℤ}
    (h : reserveTailPayloadBytes pump oversize bytes = some next) :
    ∃ tail queued, next = { pump with
      eventPumpTailBytes := tail, eventPumpQueuedPayloadBytes := queued } := by
  simp only [reserveTailPayloadBytes] at h
  split at h
  · exact ⟨_, _, (some.inj h).symm⟩
  · cases h

theorem writeEventPumpQueue_eq {command : EventPumpCommand κ ε}
    (h : writeEventPumpQueue pump command = some next) :
    next = { pump with eventPumpQueue := pump.eventPumpQueue ++ [command] } := by
  unfold writeEventPumpQueue at h
  split at h
  · exact (some.inj h).symm
  · cases h

/-- A command without text, at the end of the queue. -/
theorem pushed_of_enqueueEventPumpCommand {event : ε}
    (h : enqueueEventPumpCommand pump (.deliverEvent event) = some next) :
    Pushed pump next (.deliverEvent event) := by
  obtain ⟨bytes, hclear⟩ := clearEventPumpTail_eq pump
  rw [enqueueEventPumpCommand, hclear] at h
  rw [writeEventPumpQueue_eq h]
  refine ⟨rfl, ?_, Nat.le_refl _, ?_, fun _ _ => rfl, fun _ _ => rfl⟩
  · intro c hc
    simp at hc
  · intro a ha
    simp [EventPumpCommand.address] at ha

theorem pushed_of_flush {a : ℕ} (ha : a = pump.fresh)
    (h : enqueueEventPumpCommand
      { pump with flushed := Function.update pump.flushed a false, fresh := pump.fresh + 1 }
      (.flushEvents a) = some next) :
    Pushed pump next (.flushEvents a) ∧ next.flushed a = false := by
  obtain ⟨bytes, hclear⟩ := clearEventPumpTail_eq
    { pump with flushed := Function.update pump.flushed a false, fresh := pump.fresh + 1 }
  rw [enqueueEventPumpCommand, hclear] at h
  rw [writeEventPumpQueue_eq h]
  refine ⟨⟨rfl, fun c hc => by simp at hc, Nat.le_succ _, ?_, fun _ _ => rfl, ?_⟩, ?_⟩
  · intro b hb
    simp only [EventPumpCommand.address, some.injEq] at hb
    exact ⟨hb ▸ ha, Nat.lt_succ_self _⟩
  · intro b hb
    exact update_of_ne (by omega) _ _
  · exact update_self _ _ _

/-- A new node is pushed if its text is in a variable of its own. -/
theorem pushed_of_startNode {base : EventPump κ ε} {pending : CoalescedEvent κ ε} {oversize : Bool}
    {bytes : ℤ} (h : startNode base pending oversize bytes = some next)
    (hqueue : base.eventPumpQueue = pump.eventPumpQueue) (hfresh : base.fresh = pump.fresh + 1)
    (haddress : pending.address = pump.fresh)
    (hcontent : ∀ c : CoalescedEvent κ ε, c.address < pump.fresh →
      base.content c = pump.content c)
    (hflushed : base.flushed = pump.flushed) :
    Pushed pump next (.deliverCoalescedEvent pending) ∧
      next.content pending = base.content pending := by
  rw [startNode, bind_eq_some_iff] at h
  obtain ⟨reserved, hreserve, hwrite⟩ := h
  obtain ⟨tail, queued, rfl⟩ := reserveTailPayloadBytes_eq hreserve
  rw [writeEventPumpQueue_eq hwrite]
  refine ⟨⟨?_, ?_, ?_, ?_, ?_, fun a _ => congrFun hflushed a⟩, by cases pending <;> rfl⟩
  · rw [← hqueue]
  · intro c hc
    rw [← some.inj hc]
  · simp only [hfresh]
    omega
  · intro a ha
    simp only [EventPumpCommand.address, some.injEq] at ha
    simp only [hfresh]
    omega
  · intro c hc
    rw [← hcontent c hc]
    cases c <;> rfl

section Text

variable {key : κ} {build : Text → ε} {text : Text} {progress : PumpProgress κ ε}

theorem enqueued_of_startAppendedEvent (h : startAppendedEvent pump key build text = some next)
    (hprogress : ∀ f, progress ≠ .awaiting f) :
    Enqueued pump next [.appended key build text] progress := by
  obtain ⟨bytes, hclear⟩ := clearEventPumpTail_eq pump
  rw [startAppendedEvent, hclear] at h
  obtain ⟨hpushed, hcontent⟩ := pushed_of_startNode h (rfl : _ = pump.eventPumpQueue) rfl rfl (by
    intro c hc
    cases c with
    | appendedEvent k b a =>
      simp only [newBuffer, EventPump.content, CoalescedEvent.address] at hc ⊢
      rw [update_of_ne (by omega)]
    | replacedEvent k b a => rfl) rfl
  refine .pushed hpushed (.coalesced ?_) hprogress
  rw [hcontent]
  have hnew := Accumulates.appended key build pump.fresh text []
  simpa [EventPump.content, newBuffer, textBufferToText_append, textBufferToText_empty] using hnew

theorem enqueued_of_startReplacedEvent (h : startReplacedEvent pump key build text = some next)
    (hprogress : ∀ f, progress ≠ .awaiting f) :
    Enqueued pump next [.latest key build text] progress := by
  obtain ⟨bytes, hclear⟩ := clearEventPumpTail_eq pump
  rw [startReplacedEvent, hclear] at h
  obtain ⟨hpushed, hcontent⟩ := pushed_of_startNode h (rfl : _ = pump.eventPumpQueue) rfl rfl (by
    intro c hc
    cases c with
    | appendedEvent k b a => rfl
    | replacedEvent k b a =>
      simp only [newSnapshot, EventPump.content, CoalescedEvent.address] at hc ⊢
      rw [update_of_ne (by omega)]) rfl
  refine .pushed hpushed (.coalesced ?_) hprogress
  rw [hcontent]
  have hnew := Accumulates.latest key build pump.fresh text []
  simpa [EventPump.content, newSnapshot] using hnew

variable [DecidableEq κ]

/-- `emitAppendedText` adds to the tail or pushes a node. -/
theorem enqueued_of_enqueueChunk (h : enqueueChunk pump key build text = some next)
    (hprogress : ∀ f, progress ≠ .awaiting f) :
    Enqueued pump next [.appended key build text] progress := by
  simp only [enqueueChunk] at h
  split at h
  · next currentKey currentBuild buffer htail =>
    split at h
    · next hkey =>
      subst hkey
      rw [map_eq_some_iff] at h
      obtain ⟨reserved, hreserve, rfl⟩ := h
      obtain ⟨tail, queued, rfl⟩ := reserveTailPayloadBytes_eq hreserve
      refine .merged (p := .appendedEvent currentKey currentBuild buffer)
        ⟨htail, rfl, rfl, rfl, ?_, rfl⟩ ?_ hprogress
      · intro c hc
        cases c with
        | appendedEvent k b a =>
          simp only [EventPump.content, CoalescedEvent.address] at hc ⊢
          rw [update_of_ne hc]
        | replacedEvent k b a => rfl
      · intro group hacc
        have hmore := hacc.append build text
        simpa [EventPump.content, textBufferToText_append] using hmore
    · exact enqueued_of_startAppendedEvent h hprogress
  · exact enqueued_of_startAppendedEvent h hprogress

/-- `emitLatestText` replaces the snapshot of the tail or pushes a node. -/
theorem enqueued_of_enqueueSnapshot (h : enqueueSnapshot pump key build text = some next)
    (hprogress : ∀ f, progress ≠ .awaiting f) :
    Enqueued pump next [.latest key build text] progress := by
  simp only [enqueueSnapshot] at h
  split at h
  · next currentKey currentBuild snapshot htail =>
    split at h
    · next hkey =>
      subst hkey
      obtain ⟨tail, queued, rfl⟩ := reserveTailPayloadBytes_eq h
      refine .merged (p := .replacedEvent currentKey currentBuild snapshot)
        ⟨htail, rfl, rfl, rfl, ?_, rfl⟩ ?_ hprogress
      · intro c hc
        cases c with
        | appendedEvent k b a => rfl
        | replacedEvent k b a =>
          simp only [EventPump.content, CoalescedEvent.address] at hc ⊢
          rw [update_of_ne hc]
      · intro group hacc
        have hmore := hacc.replace build text
        simpa [EventPump.content] using hmore
    · exact enqueued_of_startReplacedEvent h hprogress
  · exact enqueued_of_startReplacedEvent h hprogress

/-- **Every transaction of a producer pushes a node, adds to the tail or pushes a flush.** -/
theorem enqueued_of_enqueue {request : PumpRequest κ ε} {emissions : List (Emission κ ε)}
    (h : request.enqueue pump = some (next, emissions, progress)) :
    Enqueued pump next emissions progress := by
  cases request with
  | emitEvent event =>
    simp only [PumpRequest.enqueue, map_eq_some_iff, Prod.mk.injEq] at h
    obtain ⟨_, henqueue, rfl, rfl, rfl⟩ := h
    exact .pushed (pushed_of_enqueueEventPumpCommand henqueue) (.event event) (by simp)
  | emitAppendedText key build text =>
    simp only [PumpRequest.enqueue, map_eq_some_iff, Prod.mk.injEq] at h
    obtain ⟨_, henqueue, rfl, rfl, rfl⟩ := h
    refine enqueued_of_enqueueChunk henqueue fun f => ?_
    split <;> simp
  | emitLatestText key build text =>
    simp only [PumpRequest.enqueue, map_eq_some_iff, Prod.mk.injEq] at h
    obtain ⟨_, henqueue, rfl, rfl, rfl⟩ := h
    exact enqueued_of_enqueueSnapshot henqueue (by simp)
  | flushEventPump =>
    simp only [PumpRequest.enqueue, map_eq_some_iff, Prod.mk.injEq] at h
    obtain ⟨_, henqueue, rfl, rfl, rfl⟩ := h
    obtain ⟨hpushed, hempty⟩ := pushed_of_flush rfl henqueue
    exact .flush hpushed hempty

end Text

/-! ### What a call has emitted -/

/-- The emissions of a call are its request, cut into pieces if its text is too long, as far as the
call has got. -/
def PumpRequest.Emits : PumpRequest κ ε → PumpProgress κ ε → List (Emission κ ε) → Prop
  | .emitEvent event, progress, emissions =>
      match progress with
      | .enqueuing rest => rest = .emitEvent event ∧ emissions = []
      | .awaiting _ => False
      | .returned success => emissions = if success then [.event event] else []
  | .emitAppendedText key build text, progress, emissions =>
      ∃ chunks : List Text, emissions = chunks.map (.appended key build) ∧
        (∀ chunk ∈ chunks, chunk.length ≤ eventTailPayloadBudgetCodeUnits) ∧
        match progress with
        | .enqueuing rest =>
            ∃ left, rest = .emitAppendedText key build left ∧ chunks.flatten ++ left = text
        | .awaiting _ => False
        | .returned success => chunks.flatten <+: text ∧ (success → chunks.flatten = text)
  | .emitLatestText key build text, progress, emissions =>
      match progress with
      | .enqueuing rest => rest = .emitLatestText key build text ∧ emissions = []
      | .awaiting _ => False
      | .returned success => emissions = if success then [.latest key build text] else []
  | .flushEventPump, progress, emissions =>
      emissions = [] ∧ ∀ rest, progress = .enqueuing rest → rest = .flushEventPump

/-- What every call has emitted. -/
structure CallsInvariant (w : PumpWorld κ ε) : Prop where
  emits : ∀ (index : ℕ) (call : PumpCall κ ε), w.calls[index]? = some call →
    call.request.Emits call.progress (w.emittedBy index)
  bound : ∀ e ∈ w.emitted, e.1 < w.calls.length

/-- The pieces of a text. -/
theorem nextChunk_spec (text : Text) :
    (nextChunk text).1.length ≤ eventTailPayloadBudgetCodeUnits ∧
      (nextChunk text).1 ++ (nextChunk text).2.getD [] = text := by
  unfold nextChunk
  split
  · next hnil =>
    rw [List.isEmpty_iff] at hnil
    rw [hnil]
    exact ⟨Nat.zero_le _, rfl⟩
  · split
    · next hlen => exact ⟨hlen, List.append_nil _⟩
    · simp only [splitAt_eq, length_take]
      refine ⟨Nat.min_le_left _ _, ?_⟩
      split
      · next hrest =>
        rw [List.isEmpty_iff] at hrest
        conv_rhs => rw [← take_append_drop eventTailPayloadBudgetCodeUnits text, hrest]
        rfl
      · exact take_append_drop _ _

section Calls

variable [DecidableEq κ] {progress : PumpProgress κ ε}

/-- One transaction of a call emits the next piece of its request. -/
theorem PumpRequest.Emits.enqueue {request rest : PumpRequest κ ε}
    {before emissions : List (Emission κ ε)} (h : request.Emits (.enqueuing rest) before)
    (henqueue : rest.enqueue pump = some (next, emissions, progress)) :
    request.Emits progress (before ++ emissions) := by
  cases request with
  | emitEvent event | emitLatestText key build text =>
    obtain ⟨rfl, rfl⟩ := h
    simp only [PumpRequest.enqueue, map_eq_some_iff, Prod.mk.injEq] at henqueue
    obtain ⟨_, -, -, rfl, rfl⟩ := henqueue
    rfl
  | flushEventPump =>
    obtain ⟨rfl, hrest⟩ := h
    rw [hrest rest rfl] at henqueue
    simp only [PumpRequest.enqueue, map_eq_some_iff, Prod.mk.injEq] at henqueue
    obtain ⟨_, -, -, rfl, rfl⟩ := henqueue
    exact ⟨rfl, fun _ hne => by simp at hne⟩
  | emitAppendedText key build text =>
    obtain ⟨chunks, rfl, hlen, left, rfl, htext⟩ := h
    simp only [PumpRequest.enqueue, map_eq_some_iff, Prod.mk.injEq] at henqueue
    obtain ⟨_, -, -, rfl, rfl⟩ := henqueue
    obtain ⟨hbound, hsplit⟩ := nextChunk_spec left
    refine ⟨chunks ++ [(nextChunk left).1], by simp, ?_, ?_⟩
    · intro chunk hmem
      rcases mem_append.mp hmem with hold | hnew
      · exact hlen chunk hold
      · rw [mem_singleton] at hnew
        exact hnew ▸ hbound
    · cases hrest : (nextChunk left).2 with
      | none =>
        rw [hrest] at hsplit
        have hall : (chunks ++ [(nextChunk left).1]).flatten = text := by
          simpa [← htext] using hsplit
        exact ⟨hall ▸ prefix_refl _, fun _ => hall⟩
      | some rest =>
        rw [hrest] at hsplit
        exact ⟨rest, rfl, by simpa [← htext] using hsplit⟩

omit [DecidableEq κ] in
/-- A call that fails has emitted part of its request. -/
theorem PumpRequest.Emits.fail {request : PumpRequest κ ε} {emissions : List (Emission κ ε)}
    (h : request.Emits progress emissions) (hprogress : ∀ success, progress ≠ .returned success) :
    request.Emits (.returned false) emissions := by
  cases request with
  | emitEvent event | emitLatestText key build text =>
    cases progress with
    | enqueuing rest => exact h.2
    | awaiting f => exact h.elim
    | returned success => exact absurd rfl (hprogress success)
  | flushEventPump => exact ⟨h.1, fun _ hne => by simp at hne⟩
  | emitAppendedText key build text =>
    obtain ⟨chunks, rfl, hlen, hrest⟩ := h
    cases progress with
    | enqueuing rest =>
      obtain ⟨left, -, htext⟩ := hrest
      exact ⟨chunks, rfl, hlen, ⟨left, htext⟩, by simp⟩
    | awaiting f => exact hrest.elim
    | returned success => exact absurd rfl (hprogress success)

namespace CallsInvariant

variable {w w' : PumpWorld κ ε}

omit [DecidableEq κ] in
theorem emittedBy_append (w : PumpWorld κ ε) (index j : ℕ) (emissions : List (Emission κ ε)) :
    ((w.emitted ++ emissions.map fun emission => (index, emission)).filter
        (fun e => e.1 == j)).map Prod.snd
      = w.emittedBy j ++ if index = j then emissions else [] := by
  by_cases hj : index = j
  · simp [PumpWorld.emittedBy, List.filter_map, comp_def, hj]
  · simp [PumpWorld.emittedBy, List.filter_map, comp_def, hj]

omit [DecidableEq κ] in
/-- A call changes its progress and emits nothing. -/
theorem set (h : CallsInvariant w) {index : ℕ} {call : PumpCall κ ε}
    (hcall : call.request.Emits call.progress (w.emittedBy index)) :
    CallsInvariant { w with calls := w.calls.set index call } where
  emits := by
    intro j other hother
    rw [List.getElem?_set] at hother
    split at hother
    · next hj =>
      split at hother
      · rw [some.injEq] at hother
        rw [← hj, ← hother]
        exact hcall
      · cases hother
    · exact h.emits j other hother
  bound := by simpa using h.bound

omit [DecidableEq κ] in
theorem initial : CallsInvariant (PumpWorld.initial : PumpWorld κ ε) where
  emits := by intro index call hcall; simp [PumpWorld.initial] at hcall
  bound := by intro e he; cases he

omit [DecidableEq κ] in
/-- A move that leaves the calls and the emissions alone. -/
theorem congr (h : CallsInvariant w) (hcalls : w'.calls = w.calls)
    (hemitted : w'.emitted = w.emitted) : CallsInvariant w' where
  emits := by
    intro index call hcall
    rw [hcalls] at hcall
    have hemits := h.emits index call hcall
    unfold PumpWorld.emittedBy at hemits ⊢
    rwa [hemitted]
  bound := by
    intro e he
    rw [hemitted] at he
    rw [hcalls]
    exact h.bound e he

omit [DecidableEq κ] in
/-- A new call has emitted nothing. -/
theorem call (h : CallsInvariant w) (request : PumpRequest κ ε) :
    CallsInvariant { w with
      calls := w.calls ++ [{ request, progress := .enqueuing request, emittedBefore := 0 }] } where
  emits := by
    intro j other hother
    rw [List.getElem?_append] at hother
    split at hother
    · exact h.emits j other hother
    · next hlen =>
      have hnone : w.emittedBy j = [] := by
        simp only [PumpWorld.emittedBy, map_eq_nil_iff, filter_eq_nil_iff, beq_iff_eq]
        intro e he hj
        have := h.bound e he
        omega
      have hnew : other = { request, progress := .enqueuing request, emittedBefore := 0 } := by
        rw [List.getElem?_singleton] at hother
        split at hother
        · exact (some.inj hother).symm
        · cases hother
      change other.request.Emits other.progress (w.emittedBy j)
      rw [hnone, hnew]
      cases request with
      | emitEvent event => exact ⟨rfl, rfl⟩
      | emitAppendedText key build text => exact ⟨[], rfl, by simp, text, rfl, rfl⟩
      | emitLatestText key build text => exact ⟨rfl, rfl⟩
      | flushEventPump => exact ⟨rfl, fun rest hrest => (PumpProgress.enqueuing.inj hrest).symm⟩
  bound := by
    intro e he
    have := h.bound e he
    rw [length_append]
    omega

/-- A transaction of a call adds its emissions. -/
theorem enqueue (h : CallsInvariant w) {index before : ℕ} {request rest : PumpRequest κ ε}
    {pump : EventPump κ ε} {emissions : List (Emission κ ε)} {progress : PumpProgress κ ε}
    (hcall : w.calls[index]?
      = some { request, progress := .enqueuing rest, emittedBefore := before })
    (henqueue : rest.enqueue w.pump = some (pump, emissions, progress)) :
    CallsInvariant { w with
      pump
      emitted := w.emitted ++ emissions.map fun emission => (index, emission)
      calls := w.calls.set index { request, progress, emittedBefore := w.emitted.length } } where
  emits := by
    intro j other hother
    simp only [PumpWorld.emittedBy]
    rw [emittedBy_append]
    simp only [List.getElem?_set] at hother
    split at hother
    · next hj =>
      split at hother
      · rw [some.injEq] at hother
        subst hj hother
        rw [if_pos rfl]
        exact (h.emits index _ hcall).enqueue henqueue
      · cases hother
    · next hj =>
      rw [if_neg hj, List.append_nil]
      exact h.emits j other hother
  bound := by
    intro e he
    rw [length_set]
    rcases mem_append.mp he with hold | hnew
    · exact h.bound e hold
    · obtain ⟨emission, -, rfl⟩ := List.mem_map.mp hnew
      exact (List.getElem?_eq_some_iff.mp hcall).1

/-- The worker leaves the calls and the emissions alone. -/
theorem worker_keeps {e : PumpEvent κ ε} (hcall : ∀ request, e ≠ .call request)
    (henqueue : ∀ index, e ≠ .enqueue index) (hwake : ∀ index, e ≠ .wake index)
    (hst : w.step e = some w') : w'.calls = w.calls ∧ w'.emitted = w.emitted := by
  cases e with
  | call request => exact absurd rfl (hcall request)
  | enqueue index => exact absurd rfl (henqueue index)
  | wake index => exact absurd rfl (hwake index)
  | dequeue =>
    simp only [PumpWorld.step] at hst
    split at hst
    · split at hst <;> exact some.inj hst ▸ ⟨rfl, rfl⟩
    · cases hst
  | _ =>
    simp only [PumpWorld.step] at hst
    split at hst
    · exact some.inj hst ▸ ⟨rfl, rfl⟩
    · cases hst

theorem step (h : CallsInvariant w) {e : PumpEvent κ ε} (hst : w.step e = some w') :
    CallsInvariant w' := by
  cases e with
  | call request =>
    simp only [PumpWorld.step, some.injEq] at hst
    exact hst ▸ h.call request
  | enqueue index =>
    simp only [PumpWorld.step] at hst
    split at hst
    · next request rest before hcall =>
      split at hst
      · rw [some.injEq] at hst
        exact hst ▸ h.set ((h.emits index _ hcall).fail (by simp))
      · rw [map_eq_some_iff] at hst
        obtain ⟨⟨pump, emissions, progress⟩, henqueue, rfl⟩ := hst
        exact h.enqueue hcall henqueue
    · cases hst
  | wake index =>
    simp only [PumpWorld.step] at hst
    split at hst
    · next request flushed before hcall =>
      have hemits := h.emits index _ hcall
      split at hst
      · cases hst
        exact h.set (hemits.fail (by simp))
      · split at hst
        · cases hst
          refine h.set ?_
          -- only a flush waits
          cases request with
          | flushEventPump => exact ⟨hemits.1, fun _ hne => by simp at hne⟩
          | emitEvent event | emitLatestText key build text => exact hemits.elim
          | emitAppendedText key build text =>
            obtain ⟨chunks, -, -, hfalse⟩ := hemits
            exact hfalse.elim
        · cases hst
    · cases hst
  | _ =>
    obtain ⟨hcalls, hemitted⟩ := worker_keeps (by simp) (by simp) (by simp) hst
    exact h.congr hcalls hemitted

end CallsInvariant

end Calls

/-! ### The nodes, the tail and the flushes -/

/-- The first `n` emissions were delivered, by the first events on which the sink returned. -/
def PumpWorld.Covered (w : PumpWorld κ ε) (hg : List (List (Emission κ ε))) (n : ℕ) : Prop :=
  n ≤ w.emitted.length ∧
    ∃ k ≤ w.delivered.length, (w.emitted.take n).map Prod.snd = (hg.take k).flatten

/-- A flush that came after `n` emissions is either still pending, behind the nodes of exactly these
emissions, or they were delivered. -/
structure PumpWorld.Awaits (w : PumpWorld κ ε) (hg pg : List (List (Emission κ ε)))
    (flushed n : ℕ) : Prop where
  fresh : flushed < w.pump.fresh
  bound : n ≤ w.emitted.length
  behind : ∀ k : ℕ, w.pending[k]? = some (.flushEvents flushed) →
    (w.emitted.take n).map Prod.snd = hg.flatten ++ (pg.take k).flatten
  covered : w.pump.flushed flushed = true → w.Covered hg n

/-- The emissions are those of the events handed to the sink, `hg`, and those of the pending nodes,
`pg`; the tail is the last pending node. -/
structure PumpInvariant (w : PumpWorld κ ε) (hg pg : List (List (Emission κ ε))) : Prop where
  emitted : w.emitted.map Prod.snd = hg.flatten ++ pg.flatten
  handed : List.Forall₂ Coalesces hg w.handed
  pending : List.Forall₂ w.pump.Represents pg w.pending
  tail : ∀ c, w.pump.eventPumpTail = some c →
    w.pending.getLast? = some (.deliverCoalescedEvent c)
  addresses : (w.pending.filterMap EventPumpCommand.address).Nodup
  fresh : ∀ a ∈ w.pending.filterMap EventPumpCommand.address, a < w.pump.fresh
  delivered : w.delivered <+: w.handed
  /-- While no sink runs, everything handed out was delivered. -/
  current : (w.worker = .reading ∨ w.worker.inHand ≠ []) → w.delivered = w.handed
  awaiting : ∀ (index : ℕ) (call : PumpCall κ ε) (f : ℕ), w.calls[index]? = some call →
    call.progress = .awaiting f → w.Awaits hg pg f call.emittedBefore
  returned : ∀ (index : ℕ) (call : PumpCall κ ε), w.calls[index]? = some call →
    call.request = .flushEventPump → call.progress = .returned true →
    w.Covered hg call.emittedBefore

namespace PumpWorld.Covered

variable {w v : PumpWorld κ ε} {hg m : List (List (Emission κ ε))} {n : ℕ}

/-- What was delivered stays delivered. -/
theorem mono (h : w.Covered hg n) (hlen : w.delivered.length ≤ hg.length)
    (hemitted : w.emitted <+: v.emitted) (hdelivered : w.delivered <+: v.delivered) :
    v.Covered (hg ++ m) n := by
  obtain ⟨hn, k, hk, heq⟩ := h
  obtain ⟨new, hnew⟩ := hemitted
  refine ⟨?_, k, Nat.le_trans hk hdelivered.length_le, ?_⟩
  · rw [← hnew, length_append]
    omega
  · rw [← hnew, take_append_of_le_length hn,
      take_append_of_le_length (Nat.le_trans hk hlen)]
    exact heq

/-- The same where nothing more is handed out. -/
theorem stay (h : w.Covered hg n) (hlen : w.delivered.length ≤ hg.length)
    (hemitted : w.emitted <+: v.emitted) (hdelivered : w.delivered <+: v.delivered) :
    v.Covered hg n := by
  have hkeep : v.Covered (hg ++ []) n := h.mono hlen hemitted hdelivered
  rwa [List.append_nil] at hkeep

end PumpWorld.Covered

/-- A pending flush keeps its place among the emissions. -/
theorem PumpWorld.Awaits.transfer {w v : PumpWorld κ ε}
    {hg pg m q : List (List (Emission κ ε))} {f n : ℕ} (h : w.Awaits hg pg f n)
    (hlen : w.delivered.length ≤ hg.length) (hfresh : w.pump.fresh ≤ v.pump.fresh)
    (hemitted : w.emitted <+: v.emitted) (hdelivered : w.delivered <+: v.delivered)
    (hflushed : v.pump.flushed f = w.pump.flushed f)
    (hpending : ∀ k : ℕ, v.pending[k]? = some (.flushEvents f) →
      ∃ j : ℕ, w.pending[j]? = some (.flushEvents f) ∧
        (hg ++ m).flatten ++ (q.take k).flatten = hg.flatten ++ (pg.take j).flatten) :
    v.Awaits (hg ++ m) q f n where
  fresh := Nat.lt_of_lt_of_le h.fresh hfresh
  bound := Nat.le_trans h.bound hemitted.length_le
  behind := by
    intro k hk
    obtain ⟨j, hj, heq⟩ := hpending k hk
    obtain ⟨new, hnew⟩ := hemitted
    rw [← hnew, take_append_of_le_length h.bound, heq]
    exact h.behind j hj
  covered := fun hf => (h.covered (hflushed ▸ hf)).mono hlen hemitted hdelivered

/-- The same where nothing more is handed out. -/
theorem PumpWorld.Awaits.stay {w v : PumpWorld κ ε} {hg pg q : List (List (Emission κ ε))}
    {f n : ℕ} (h : w.Awaits hg pg f n) (hlen : w.delivered.length ≤ hg.length)
    (hfresh : w.pump.fresh ≤ v.pump.fresh) (hemitted : w.emitted <+: v.emitted)
    (hdelivered : w.delivered <+: v.delivered)
    (hflushed : v.pump.flushed f = w.pump.flushed f)
    (hpending : ∀ k : ℕ, v.pending[k]? = some (.flushEvents f) →
      ∃ j : ℕ, w.pending[j]? = some (.flushEvents f) ∧
        (q.take k).flatten = (pg.take j).flatten) :
    v.Awaits hg q f n := by
  have hkeep : v.Awaits (hg ++ []) q f n := by
    refine h.transfer hlen hfresh hemitted hdelivered hflushed fun k hk => ?_
    obtain ⟨j, hj, heq⟩ := hpending k hk
    exact ⟨j, hj, by rw [List.append_nil, heq]⟩
  rwa [List.append_nil] at hkeep

namespace PumpInvariant

variable {w w' : PumpWorld κ ε} {hg pg pg' : List (List (Emission κ ε))}

theorem initial : PumpInvariant (PumpWorld.initial : PumpWorld κ ε) [] [] where
  emitted := rfl
  handed := .nil
  pending := .nil
  tail := by intro c hc; cases hc
  addresses := nodup_nil
  fresh := by intro a ha; cases ha
  delivered := prefix_refl _
  current := fun _ => rfl
  awaiting := by intro index call f hcall; simp [PumpWorld.initial] at hcall
  returned := by intro index call hcall; simp [PumpWorld.initial] at hcall

theorem delivered_le (h : PumpInvariant w hg pg) : w.delivered.length ≤ hg.length := by
  have := h.delivered.length_le
  have := h.handed.length_eq
  omega

/-- A move that leaves the nodes alone, and does not end a flush that was not covered. -/
theorem of_calls (h : PumpInvariant w hg pg) {calls : List (PumpCall κ ε)}
    (hcalls : ∀ (index : ℕ) (call : PumpCall κ ε), calls[index]? = some call →
      w.calls[index]? = some call ∨
        (∀ f, call.progress ≠ .awaiting f) ∧
          (call.request = .flushEventPump → call.progress = .returned true →
            w.Covered hg call.emittedBefore)) :
    PumpInvariant { w with calls } hg pg where
  emitted := h.emitted
  handed := h.handed
  pending := h.pending
  tail := h.tail
  addresses := h.addresses
  fresh := h.fresh
  delivered := h.delivered
  current := h.current
  awaiting := by
    intro index call f hcall hawait
    rcases hcalls index call hcall with hold | ⟨hnone, -⟩
    · have hold' := h.awaiting index call f hold hawait
      exact ⟨hold'.fresh, hold'.bound, hold'.behind, hold'.covered⟩
    · exact absurd hawait (hnone f)
  returned := by
    intro index call hcall hrequest hreturned
    rcases hcalls index call hcall with hold | ⟨-, hcovered⟩
    · exact h.returned index call hold hrequest hreturned
    · exact hcovered hrequest hreturned

/-- The address of a pending coalesced node. -/
theorem mem_addresses {commands : List (EventPumpCommand κ ε)} {c : CoalescedEvent κ ε}
    (h : .deliverCoalescedEvent c ∈ commands) :
    c.address ∈ commands.filterMap EventPumpCommand.address :=
  mem_filterMap.mpr ⟨_, h, rfl⟩

section

variable (h : PumpInvariant w hg pg)
include h

variable {next : EventPump κ ε}

/-- A flush that was just pushed waits behind all pending nodes. -/
theorem awaits_of_pushed {f : ℕ}
    (hpush : Pushed w.pump next (.flushEvents f)) (hempty : next.flushed f = false)
    {v : PumpWorld κ ε} (hpump : v.pump = next) (hemitted : v.emitted = w.emitted)
    (hpend : v.pending = w.pending ++ [.flushEvents f]) :
    v.Awaits hg (pg ++ [[]]) f w.emitted.length where
  fresh := by
    obtain ⟨rfl, hlt⟩ := hpush.address f rfl
    exact hpump ▸ hlt
  bound := by rw [hemitted]
  behind := by
    have hlen := h.pending.length_eq
    intro k hk
    rw [hpend, List.getElem?_append] at hk
    split at hk
    · -- the flush is new, so it is not among the older nodes
      have hmem : EventPumpCommand.flushEvents f ∈ w.pending := mem_of_getElem? hk
      have := h.fresh f (mem_filterMap.mpr ⟨_, hmem, rfl⟩)
      have := (hpush.address f rfl).1
      omega
    · next hge =>
      have hk' : k = pg.length := by
        obtain ⟨hlt, -⟩ := List.getElem?_eq_some_iff.mp hk
        rw [length_singleton] at hlt
        omega
      rw [hk', take_append_of_le_length (Nat.le_refl _), take_length, hemitted,
        take_length]
      exact h.emitted
  covered := by
    intro hf
    rw [hpump, hempty] at hf
    cases hf

/-- **A producer's transaction that pushes a node.** -/
theorem push {command : EventPumpCommand κ ε}
    {g : List (Emission κ ε)} {new : List (ℕ × Emission κ ε)} {calls : List (PumpCall κ ε)}
    (hpush : Pushed w.pump next command) (hgroup : next.Represents g command)
    (hnew : new.map Prod.snd = g)
    (hcalls : ∀ (j : ℕ) (call : PumpCall κ ε), calls[j]? = some call →
      w.calls[j]? = some call ∨
        (∀ f, call.progress = .awaiting f → command = .flushEvents f ∧ new = [] ∧
          next.flushed f = false ∧ call.emittedBefore = w.emitted.length) ∧
        (call.request = .flushEventPump → call.progress ≠ .returned true)) :
    PumpInvariant { w with pump := next, emitted := w.emitted ++ new, calls } hg
      (pg ++ [g]) := by
  have hpend : ({ w with pump := next, emitted := w.emitted ++ new, calls } : PumpWorld κ ε).pending
      = w.pending ++ [command] := by
    simp only [PumpWorld.pending, hpush.queue, append_assoc]
  have hlen := h.pending.length_eq
  have hextends : w.emitted <+: w.emitted ++ new := prefix_append _ _
  -- an address in use is not the new one
  have hold : ∀ a ∈ w.pending.filterMap EventPumpCommand.address, a < w.pump.fresh := h.fresh
  refine ⟨?_, h.handed, ?_, ?_, ?_, ?_, h.delivered, h.current, ?_, ?_⟩
  · rw [map_append, h.emitted, hnew, flatten_append, append_assoc]
    simp
  · rw [hpend]
    refine List.forall₂_concat (List.forall₂_imp_of_mem h.pending ?_) hgroup
    intro g c hc hrep
    refine hrep.congr ?_
    rintro p rfl
    exact hpush.content p (hold _ (mem_addresses hc))
  · intro c hc
    rw [hpend, hpush.tail c hc, List.getLast?_concat]
  · rw [hpend, filterMap_append, nodup_append]
    have hone : ([command].filterMap EventPumpCommand.address).Nodup := by
      cases command with
      | deliverEvent event => exact nodup_nil
      | deliverCoalescedEvent pending | flushEvents flushed => exact nodup_singleton _
    refine ⟨h.addresses, hone, ?_⟩
    intro a ha b hb hab
    obtain ⟨c, hc, hcb⟩ := mem_filterMap.mp hb
    rw [mem_singleton] at hc
    subst hc hab
    have := hold a ha
    have := (hpush.address a hcb).1
    omega
  · intro a ha
    rw [hpend, filterMap_append, mem_append] at ha
    rcases ha with hmem | hmem
    · exact Nat.lt_of_lt_of_le (hold a hmem) hpush.fresh
    · obtain ⟨c, hc, hca⟩ := mem_filterMap.mp hmem
      rw [mem_singleton] at hc
      subst hc
      obtain ⟨rfl, hlt⟩ := hpush.address a hca
      exact hlt
  · intro j call f hcall hawait
    rcases hcalls j call hcall with hsame | ⟨hflush, -⟩
    · -- an older flush keeps its place
      have hwait := h.awaiting j call f hsame hawait
      refine hwait.stay h.delivered_le hpush.fresh hextends (prefix_refl _)
        (hpush.flushed f hwait.fresh) fun k hk => ?_
      rw [hpend, List.getElem?_append] at hk
      split at hk
      · next hlt =>
        refine ⟨k, hk, ?_⟩
        rw [take_append_of_le_length (by omega)]
      · next hge =>
        rw [List.getElem?_singleton] at hk
        split at hk
        · rw [some.injEq] at hk
          have := (hpush.address f (by rw [hk]; rfl)).1
          have := hwait.fresh
          omega
        · cases hk
    · obtain ⟨rfl, rfl, hempty, hbefore⟩ := hflush f hawait
      rw [hbefore, ← hnew]
      exact h.awaits_of_pushed hpush hempty rfl (List.append_nil _) hpend
  · intro j call hcall hrequest hreturned
    rcases hcalls j call hcall with hsame | ⟨-, hnot⟩
    · have hcov := h.returned j call hsame hrequest hreturned
      exact hcov.stay h.delivered_le hextends (prefix_refl _)
    · exact absurd hreturned (hnot hrequest)

/-- **A producer's transaction that adds to the tail.**  The tail is the last pending node, so the
emission joins the last group. -/
theorem merge {pending : CoalescedEvent κ ε}
    {emission : Emission κ ε} {index : ℕ} {calls : List (PumpCall κ ε)}
    (hmerge : Merged w.pump next pending)
    (hacc : ∀ group, Accumulates group pending (w.pump.content pending) →
      Accumulates (group ++ [emission]) pending (next.content pending))
    (hcalls : ∀ (j : ℕ) (call : PumpCall κ ε), calls[j]? = some call →
      w.calls[j]? = some call ∨
        (∀ f, call.progress ≠ .awaiting f) ∧
        (call.request = .flushEventPump → call.progress ≠ .returned true)) :
    ∃ pg', PumpInvariant
      { w with pump := next, emitted := w.emitted ++ [(index, emission)], calls } hg pg' := by
  have hpend : ({ w with pump := next, emitted := w.emitted ++ [(index, emission)], calls } :
      PumpWorld κ ε).pending = w.pending := by
    simp only [PumpWorld.pending, hmerge.queue]
  obtain ⟨before, hbefore⟩ := List.getLast?_eq_some_iff.mp (h.tail pending hmerge.tail)
  have hpending := h.pending
  rw [hbefore] at hpending
  obtain ⟨groups, group, rfl, hgroups, hgroup⟩ := List.exists_of_forall₂_concat hpending
  have hlen := hgroups.length_eq
  have hextends : w.emitted <+: w.emitted ++ [(index, emission)] := prefix_append _ _
  have hother : ∀ c : CoalescedEvent κ ε, .deliverCoalescedEvent c ∈ before →
      c.address ≠ pending.address := by
    intro c hc heq
    have hnodup := h.addresses
    rw [hbefore, filterMap_append, nodup_append] at hnodup
    exact hnodup.2.2 _ (mem_addresses hc) pending.address (mem_addresses mem_cons_self) heq
  refine ⟨groups ++ [group ++ [emission]], ?_, h.handed, ?_, ?_, ?_, ?_, h.delivered, h.current,
    ?_, ?_⟩
  · rw [map_append, h.emitted]
    simp
  · rw [hpend, hbefore]
    refine List.forall₂_concat (List.forall₂_imp_of_mem hgroups ?_) ?_
    · intro g c hc hrep
      refine hrep.congr ?_
      rintro p rfl
      exact hmerge.content p (hother p hc)
    · cases hgroup with
      | coalesced hold => exact .coalesced (hacc group hold)
  · intro c hc
    rw [hpend]
    exact h.tail c (hmerge.sameTail ▸ hc)
  · rw [hpend]
    exact h.addresses
  · intro a ha
    rw [hpend] at ha
    simp only [hmerge.fresh]
    exact h.fresh a ha
  · intro j call f hcall hawait
    rcases hcalls j call hcall with hsame | ⟨hnone, -⟩
    · have hwait := h.awaiting j call f hsame hawait
      refine hwait.stay h.delivered_le (Nat.le_of_eq hmerge.fresh.symm) hextends
        (prefix_refl _) (congrFun hmerge.flushed f) fun k hk => ?_
      rw [hpend] at hk
      refine ⟨k, hk, ?_⟩
      -- the last node is the tail, so the flush stands before it
      have hk' : k ≤ groups.length := by
        rw [hbefore, List.getElem?_append] at hk
        split at hk
        · omega
        · rw [List.getElem?_singleton] at hk
          split at hk
          · cases hk
          · cases hk
      rw [take_append_of_le_length hk', take_append_of_le_length hk']
    · exact absurd hawait (hnone f)
  · intro j call hcall hrequest hreturned
    rcases hcalls j call hcall with hsame | ⟨-, hnot⟩
    · have hcov := h.returned j call hsame hrequest hreturned
      exact hcov.stay h.delivered_le hextends (prefix_refl _)
    · exact absurd hreturned (hnot hrequest)

/-- **The worker hands the first pending node to the sink.** -/
theorem hand (next : EventPump κ ε) {command : EventPumpCommand κ ε}
    {rest : List (EventPumpCommand κ ε)} {event : ε} (hpending : w.pending = command :: rest)
    (hflush : ∀ f, command ≠ .flushEvents f) (hqueue : next.eventPumpQueue = rest)
    (hevent : w.pump.pendingEvent command = some event)
    (hcontent : ∀ c, next.content c = w.pump.content c)
    (htail : ∀ c, next.eventPumpTail = some c →
      w.pump.eventPumpTail = some c ∧ command ≠ .deliverCoalescedEvent c)
    (hfresh : next.fresh = w.pump.fresh) (hflushed : next.flushed = w.pump.flushed) :
    ∃ hg' pg', PumpInvariant
      { w with pump := next, worker := .delivering, handed := w.handed ++ [event] } hg' pg' := by
  have hpend : ({ w with pump := next, worker := .delivering, handed := w.handed ++ [event] } :
      PumpWorld κ ε).pending = rest := by
    simp [PumpWorld.pending, PumpWorker.inHand, hqueue]
  have hold := h.pending
  rw [hpending] at hold
  obtain ⟨group, groups, hgroup, hgroups, rfl⟩ := forall₂_cons_right_iff.mp hold
  have hcoalesces : Coalesces group event := by
    cases hgroup with
    | event e => exact some.inj hevent ▸ .event e
    | coalesced hacc => exact some.inj hevent ▸ hacc.coalesces
    | flush f => exact absurd rfl (hflush f)
  refine ⟨hg ++ [group], groups, ?_, List.forall₂_concat h.handed hcoalesces,
    ?_, ?_, ?_, ?_, ?_, ?_, ?_, ?_⟩
  · rw [h.emitted]
    simp
  · rw [hpend]
    exact List.forall₂_imp_of_mem hgroups fun g c _ hrep => hrep.congr fun p _ => hcontent p
  · intro c hc
    obtain ⟨hwas, hne⟩ := htail c hc
    have hlast := h.tail c hwas
    rw [hpending, List.getLast?_cons] at hlast
    rw [hpend]
    cases hrest : rest.getLast? with
    | none =>
      rw [hrest] at hlast
      exact absurd (some.inj hlast) hne
    | some last =>
      rw [hrest] at hlast
      exact hlast
  · have hnodup := h.addresses
    rw [hpending] at hnodup
    rw [hpend]
    exact hnodup.sublist (List.Sublist.filterMap _ (sublist_cons_self _ _))
  · intro a ha
    rw [hpend] at ha
    simp only [hfresh]
    refine h.fresh a ?_
    rw [hpending]
    exact (List.Sublist.filterMap _ (sublist_cons_self _ _)).subset ha
  · exact h.delivered.trans (prefix_append _ _)
  · intro hidle
    simp [PumpWorker.inHand] at hidle
  · intro j call f hcall hawait
    have hwait := h.awaiting j call f hcall hawait
    refine hwait.transfer
      (v := { w with pump := next, worker := .delivering, handed := w.handed ++ [event] })
      h.delivered_le (Nat.le_of_eq hfresh.symm) (prefix_refl _) (prefix_refl _)
      (congrFun hflushed f) ?_
    intro k hk
    rw [hpend] at hk
    refine ⟨k + 1, by rw [hpending]; exact hk, ?_⟩
    simp
  · intro j call hcall hrequest hreturned
    exact (h.returned j call hcall hrequest hreturned).mono h.delivered_le (prefix_refl _)
      (prefix_refl _)

/-- A move of the worker that leaves the pending nodes as they are. -/
theorem of_worker (next : EventPump κ ε) {worker : PumpWorker κ ε}
    {delivered : List ε} (hpending : worker.inHand ++ next.eventPumpQueue = w.pending)
    (hcontent : ∀ c, next.content c = w.pump.content c)
    (htail : next.eventPumpTail = w.pump.eventPumpTail) (hfresh : next.fresh = w.pump.fresh)
    (hflushed : next.flushed = w.pump.flushed) (hmore : w.delivered <+: delivered)
    (hdelivered : delivered <+: w.handed)
    (hcurrent : (worker = .reading ∨ worker.inHand ≠ []) → delivered = w.handed) :
    PumpInvariant { w with pump := next, worker, delivered } hg pg := by
  have hpend : ({ w with pump := next, worker, delivered } : PumpWorld κ ε).pending = w.pending :=
    hpending
  refine ⟨h.emitted, h.handed, ?_, ?_, ?_, ?_, hdelivered, hcurrent, ?_, ?_⟩
  · rw [hpend]
    exact List.forall₂_imp_of_mem h.pending fun g c _ hrep => hrep.congr fun p _ => hcontent p
  · intro c hc
    rw [hpend]
    exact h.tail c (htail ▸ hc)
  · rw [hpend]
    exact h.addresses
  · intro a ha
    rw [hpend] at ha
    simp only [hfresh]
    exact h.fresh a ha
  · intro j call f hcall hawait
    refine (h.awaiting j call f hcall hawait).stay h.delivered_le (Nat.le_of_eq hfresh.symm)
      (prefix_refl _) hmore (congrFun hflushed f) fun k hk => ?_
    rw [hpend] at hk
    exact ⟨k, hk, rfl⟩
  · intro j call hcall hrequest hreturned
    have hcov := h.returned j call hcall hrequest hreturned
    exact hcov.stay h.delivered_le (prefix_refl _) hmore

/-- **The worker acknowledges a flush**: everything before it was delivered. -/
theorem acknowledge {f : ℕ} (hworker : w.worker = .flushing f) :
    ∃ pg', PumpInvariant
      { w with
        pump := { w.pump with flushed := Function.update w.pump.flushed f true }
        worker := .reading } hg pg' := by
  have hpending : w.pending = .flushEvents f :: w.pump.eventPumpQueue := by
    simp [PumpWorld.pending, hworker, PumpWorker.inHand]
  have hdone : w.delivered = w.handed := h.current (.inr (by simp [hworker, PumpWorker.inHand]))
  have hold := h.pending
  rw [hpending] at hold
  obtain ⟨group, groups, hgroup, hgroups, rfl⟩ := forall₂_cons_right_iff.mp hold
  have hnil : group = [] := by cases hgroup; rfl
  refine ⟨groups, ?_, h.handed, ?_, ?_, ?_, ?_, h.delivered, fun _ => hdone, ?_, h.returned⟩
  · rw [h.emitted, hnil]
    rfl
  · exact List.forall₂_imp_of_mem hgroups fun g c _ hrep => hrep.congr fun p _ => by cases p <;> rfl
  · intro c hc
    have hlast := h.tail c hc
    rw [hpending, List.getLast?_cons] at hlast
    cases hrest : w.pump.eventPumpQueue.getLast? with
    | none =>
      rw [hrest] at hlast
      cases hlast
    | some last =>
      rw [hrest] at hlast
      exact hrest.trans hlast
  · have hnodup := h.addresses
    rw [hpending] at hnodup
    exact hnodup.sublist (List.Sublist.filterMap _ (sublist_cons_self _ _))
  · intro a ha
    refine h.fresh a ?_
    rw [hpending]
    exact (List.Sublist.filterMap _ (sublist_cons_self _ _)).subset ha
  · intro j call f' hcall hawait
    have hwait := h.awaiting j call f' hcall hawait
    refine ⟨hwait.fresh, hwait.bound, ?_, ?_⟩
    · intro k hk
      have hbehind := hwait.behind (k + 1) (by rw [hpending]; exact hk)
      rw [hbehind, take_succ_cons, hnil]
      rfl
    · intro hf
      simp only at hf
      by_cases hsame : f' = f
      · -- this flush was the first pending node, so exactly what was handed out came before it
        subst hsame
        have hbehind := hwait.behind 0 (by rw [hpending]; rfl)
        refine ⟨hwait.bound, hg.length, ?_, ?_⟩
        · have := h.handed.length_eq
          simp only [hdone]
          omega
        · rw [hbehind]
          simp
      · rw [update_of_ne hsame] at hf
        exact hwait.covered hf

end

variable [DecidableEq κ]

/-- A node that is not the tail's variable is not the tail. -/
theorem ne_of_not_sameCoalescedEvent {c p : CoalescedEvent κ ε}
    (h : sameCoalescedEvent (some c) p = false) : p ≠ c := by
  rintro rfl
  cases p <;> simp [sameCoalescedEvent] at h

section

variable (h : PumpInvariant w hg pg)
include h

theorem enqueue (hcalls : CallsInvariant w) {index : ℕ}
    (hst : w.step (.enqueue index) = some w') : ∃ hg' pg', PumpInvariant w' hg' pg' := by
  simp only [PumpWorld.step] at hst
  split at hst
  · next request rest before hcall =>
    have hemits := hcalls.emits index _ hcall
    split at hst
    · cases hst
      refine ⟨hg, pg, h.of_calls ?_⟩
      intro j call hj
      rcases List.getElem?_set_cases hj with ⟨-, hsame⟩ | ⟨-, rfl⟩
      · exact .inl hsame
      · exact .inr ⟨by simp, fun _ => by simp⟩
    · rw [map_eq_some_iff] at hst
      obtain ⟨⟨pump, emissions, progress⟩, henqueue, rfl⟩ := hst
      -- only a request that emits something returns at once
      have hreturn : emissions ≠ [] → request ≠ .flushEventPump := by
        rintro hne rfl
        have hnone := hemits.enqueue henqueue
        exact hne (append_eq_nil_iff.mp hnone.1).2
      cases enqueued_of_enqueue henqueue with
      | pushed hpush hrep hprogress =>
        refine ⟨hg, _, h.push hpush hrep rfl ?_⟩
        intro j call hj
        rcases List.getElem?_set_cases hj with ⟨-, hsame⟩ | ⟨-, rfl⟩
        · exact .inl hsame
        · exact .inr ⟨fun f hf => absurd hf (hprogress f),
            fun hrequest => absurd hrequest (hreturn (by simp))⟩
      | merged hmerge hacc hprogress =>
        have hset : ∀ (j : ℕ) (call : PumpCall κ ε),
            (w.calls.set index { request, progress, emittedBefore := w.emitted.length })[j]?
              = some call → w.calls[j]? = some call ∨ (∀ f, call.progress ≠ .awaiting f) ∧
              (call.request = .flushEventPump → call.progress ≠ .returned true) := by
          intro j call hj
          rcases List.getElem?_set_cases hj with ⟨-, hsame⟩ | ⟨-, rfl⟩
          · exact .inl hsame
          · exact .inr ⟨hprogress, fun hrequest => absurd hrequest (hreturn (by simp))⟩
        obtain ⟨pg', hinv⟩ := h.merge hmerge hacc hset
        exact ⟨hg, pg', hinv⟩
      | flush hpush hempty =>
        refine ⟨hg, _, h.push (g := []) hpush (.flush _) rfl ?_⟩
        intro j call hj
        rcases List.getElem?_set_cases hj with ⟨-, hsame⟩ | ⟨-, rfl⟩
        · exact .inl hsame
        · refine .inr ⟨fun f hf => ?_, fun _ => by simp⟩
          have hf' : w.pump.fresh = f := by simpa using hf
          subst hf'
          exact ⟨rfl, rfl, hempty, rfl⟩
  · cases hst

theorem wake {index : ℕ} (hst : w.step (.wake index) = some w') :
    PumpInvariant w' hg pg := by
  simp only [PumpWorld.step] at hst
  split at hst
  · next request flushed before hcall =>
    split at hst
    · cases hst
      refine h.of_calls fun j call hj => ?_
      rcases List.getElem?_set_cases hj with ⟨-, hsame⟩ | ⟨-, rfl⟩
      · exact .inl hsame
      · exact .inr ⟨by simp, fun _ => by simp⟩
    · split at hst
      · next hflushed =>
        cases hst
        refine h.of_calls fun j call hj => ?_
        rcases List.getElem?_set_cases hj with ⟨-, hsame⟩ | ⟨-, rfl⟩
        · exact .inl hsame
        · exact .inr ⟨by simp, fun _ _ => (h.awaiting index _ flushed hcall rfl).covered hflushed⟩
      · cases hst
  · cases hst

theorem dequeue (hst : w.step .dequeue = some w') :
    ∃ hg' pg', PumpInvariant w' hg' pg' := by
  simp only [PumpWorld.step] at hst
  split at hst
  · next command rest hworker hqueue =>
    have hpending : w.pending = command :: rest := by
      simp [PumpWorld.pending, hworker, PumpWorker.inHand, hqueue]
    have hdone : w.delivered = w.handed := h.current (.inl hworker)
    split at hst
    · next event =>
      cases hst
      refine h.hand { w.pump with eventPumpQueue := rest } hpending (by simp) rfl rfl
        (fun c => by cases c <;> rfl) (fun c hc => ⟨hc, by simp⟩) rfl rfl
    · next pending =>
      cases hst
      exact ⟨hg, pg, h.of_worker { w.pump with eventPumpQueue := rest } hpending.symm
        (fun c => by cases c <;> rfl) rfl rfl rfl (prefix_refl _) h.delivered fun _ => hdone⟩
    · next flushed =>
      cases hst
      exact ⟨hg, pg, h.of_worker { w.pump with eventPumpQueue := rest } hpending.symm
        (fun c => by cases c <;> rfl) rfl rfl rfl (prefix_refl _) h.delivered fun _ => hdone⟩
  · cases hst

theorem take (hst : w.step .take = some w') :
    ∃ hg' pg', PumpInvariant w' hg' pg' := by
  simp only [PumpWorld.step] at hst
  split at hst
  · next pending hworker =>
    cases hst
    have hpending : w.pending = .deliverCoalescedEvent pending :: w.pump.eventPumpQueue := by
      simp [PumpWorld.pending, hworker, PumpWorker.inHand]
    have hsame : ∀ c, (if sameCoalescedEvent w.pump.eventPumpTail pending = true then
        { w.pump with eventPumpTail := none, eventPumpTailBytes := 0 } else w.pump).content c
        = w.pump.content c := by
      intro c
      split
      · cases c <;> rfl
      · rfl
    simp only [takeCoalescedEvent]
    refine h.hand _ hpending (by simp) ?_ ?_ ?_ ?_ ?_ ?_
    · simp only [releaseQueuedPayloadBytes]
      split <;> rfl
    · simp only [EventPump.pendingEvent, materializeCoalescedEvent, hsame]
    · intro c
      rw [← hsame c]
      cases c <;> rfl
    · intro c hc
      simp only [releaseQueuedPayloadBytes] at hc
      split at hc
      · cases hc
      · next hdiff =>
        refine ⟨hc, fun heq => ?_⟩
        rw [hc, Bool.not_eq_true] at hdiff
        exact ne_of_not_sameCoalescedEvent hdiff (EventPumpCommand.deliverCoalescedEvent.inj heq)
    · simp only [releaseQueuedPayloadBytes]
      split <;> rfl
    · simp only [releaseQueuedPayloadBytes]
      split <;> rfl
  · cases hst

/-- **Every move keeps the correspondence of nodes and emissions.** -/
theorem step (hcalls : CallsInvariant w) {e : PumpEvent κ ε}
    (hst : w.step e = some w') : ∃ hg' pg', PumpInvariant w' hg' pg' := by
  cases e with
  | call request =>
    simp only [PumpWorld.step, some.injEq] at hst
    subst hst
    refine ⟨hg, pg, h.of_calls fun j call hj => ?_⟩
    rw [List.getElem?_append] at hj
    split at hj
    · exact .inl hj
    · have hmem := mem_of_getElem? hj
      rw [mem_singleton] at hmem
      subst hmem
      exact .inr ⟨by simp, fun _ => by simp⟩
  | enqueue index => exact h.enqueue hcalls hst
  | wake index => exact ⟨hg, pg, h.wake hst⟩
  | dequeue => exact h.dequeue hst
  | take => exact h.take hst
  | acknowledge =>
    simp only [PumpWorld.step] at hst
    split at hst
    · next flushed hworker =>
      cases hst
      obtain ⟨pg', hinv⟩ := h.acknowledge hworker
      exact ⟨hg, pg', hinv⟩
    · cases hst
  | sinkReturns =>
    simp only [PumpWorld.step] at hst
    split at hst
    · next hworker =>
      cases hst
      exact ⟨hg, pg, h.of_worker _ (by simp [PumpWorld.pending, hworker, PumpWorker.inHand])
        (fun _ => rfl) rfl rfl rfl h.delivered (prefix_refl _) fun _ => rfl⟩
    · cases hst
  | sinkFails =>
    simp only [PumpWorld.step] at hst
    split at hst
    · next hworker =>
      cases hst
      exact ⟨hg, pg, h.of_worker _ (by simp [PumpWorld.pending, hworker, PumpWorker.inHand])
        (fun _ => rfl) rfl rfl rfl (prefix_refl _) h.delivered (by simp [PumpWorker.inHand])⟩
    · cases hst
  | recordFailure =>
    simp only [PumpWorld.step] at hst
    split at hst
    · next hworker =>
      cases hst
      exact ⟨hg, pg, h.of_worker { w.pump with eventPumpFailure := true }
        (by simp [PumpWorld.pending, hworker, PumpWorker.inHand])
        (fun c => by cases c <;> rfl) rfl rfl rfl (prefix_refl _) h.delivered
        (by simp [PumpWorker.inHand])⟩
    · cases hst

end

end PumpInvariant

/-- The pending nodes, without the flushes between them. -/
theorem EventPump.exists_pendingGroups {pg : List (List (Emission κ ε))}
    {commands : List (EventPumpCommand κ ε)} (h : List.Forall₂ pump.Represents pg commands) :
    ∃ groups, groups.flatten = pg.flatten ∧
      List.Forall₂ Coalesces groups (commands.filterMap pump.pendingEvent) := by
  induction h with
  | nil => exact ⟨[], rfl, .nil⟩
  | cons hrep _ ih =>
    obtain ⟨groups, hflatten, hgroups⟩ := ih
    cases hrep with
    | event e => exact ⟨[.event e] :: groups, by simp [hflatten], .cons (.event e) hgroups⟩
    | coalesced hacc => exact ⟨_ :: groups, by simp [hflatten], .cons hacc.coalesces hgroups⟩
    | flush f => exact ⟨groups, by simpa using hflatten, hgroups⟩

/-- **The event pump refines an in-order queue.**  In every interleaving of producers, flushes and
the worker, the events handed to the sink, followed by those pending, stand for the emissions in
their order: each for one emitted event, for adjacent texts of one key, or for the last of adjacent
snapshots of one key.  What a call emits is its request, in pieces if its text is too long, and all
of it once the call has returned; and a flush returns success only after the sink has returned on
the events of everything emitted before it. -/
theorem event_pump_refines_queue [DecidableEq κ] {w : PumpWorld κ ε}
    (h : Reachable PumpWorld.step PumpWorld.initial w) :
    (∃ groups, w.emitted.map Prod.snd = groups.flatten ∧
      List.Forall₂ Coalesces groups (w.handed ++ w.pending.filterMap w.pump.pendingEvent)) ∧
    (∀ (index : ℕ) (call : PumpCall κ ε), w.calls[index]? = some call →
      call.request.Emits call.progress (w.emittedBy index)) ∧
    (∀ (index : ℕ) (call : PumpCall κ ε), w.calls[index]? = some call →
      call.request = .flushEventPump → call.progress = .returned true →
      ∃ groups done, done <+: w.delivered ∧
        (w.emitted.take call.emittedBefore).map Prod.snd = groups.flatten ∧
        List.Forall₂ Coalesces groups done) := by
  have hinv : CallsInvariant w ∧ ∃ hg pg, PumpInvariant w hg pg := by
    refine h.invariant (I := fun w => CallsInvariant w ∧ ∃ hg pg, PumpInvariant w hg pg) ?_ ?_
    · exact ⟨CallsInvariant.initial, [], [], PumpInvariant.initial⟩
    · rintro s e s' ⟨hcalls, hg, pg, hpump⟩ - hst
      exact ⟨hcalls.step hst, hpump.step hcalls hst⟩
  obtain ⟨hcalls, hg, pg, hpump⟩ := hinv
  refine ⟨?_, hcalls.emits, ?_⟩
  · obtain ⟨groups, hflatten, hgroups⟩ := EventPump.exists_pendingGroups hpump.pending
    refine ⟨hg ++ groups, ?_, rel_append hpump.handed hgroups⟩
    rw [hpump.emitted, flatten_append, hflatten]
  · intro index call hcall hrequest hreturned
    obtain ⟨-, k, hk, heq⟩ := hpump.returned index call hcall hrequest hreturned
    refine ⟨hg.take k, w.delivered.take k, take_prefix _ _, heq, ?_⟩
    -- the first events handed out are the first ones delivered
    have htake : w.delivered.take k = w.handed.take k := by
      obtain ⟨more, hmore⟩ := hpump.delivered
      rw [← hmore, take_append_of_le_length hk]
    rw [htake]
    exact forall₂_take k hpump.handed

/-- Two texts of one key, of which the second arrives after the worker took their node; then a
flush. -/
def pumpRun : List (PumpEvent ℕ Text) :=
  [.call (.emitAppendedText 0 id "a".toList), .enqueue 0, .dequeue,
    .call (.emitAppendedText 0 id "b".toList), .enqueue 1, .take,
    .call .flushEventPump, .enqueue 2, .sinkReturns, .dequeue, .acknowledge, .wake 2]

theorem event_pump_refines_queue_in_pumpRun :
    ∃ w : PumpWorld ℕ Text, Reachable PumpWorld.step PumpWorld.initial w ∧
      w.delivered = ["ab".toList] ∧
      ∃ groups, w.emitted.map Prod.snd = groups.flatten ∧
        List.Forall₂ Coalesces groups (w.handed ++ w.pending.filterMap w.pump.pendingEvent) := by
  have hrun : (Machine.run PumpWorld.step (PumpWorld.initial : PumpWorld ℕ Text) pumpRun).any
        (fun w => w.delivered == ["ab".toList]) = true := by
    decide +kernel
  obtain ⟨w, hreach, hdelivered⟩ := exists_reachable_of_run hrun
  obtain ⟨hgroups, -, -⟩ := event_pump_refines_queue hreach
  exact ⟨w, hreach, by simpa using hdelivered, hgroups⟩

end HaskellAgent
