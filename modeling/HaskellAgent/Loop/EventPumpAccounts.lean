import HaskellAgent.Loop.EventPumpRefinement
import Mathlib.Algebra.Order.BigOperators.Group.List
import Mathlib.Algebra.Order.Group.Int

/-!
# The byte accounts of the event pump

A producer may extend the tail of the queue without taking another slot, so the pump bounds the
payload of its coalesced nodes.  It keeps two counters: the payload of all of them, which the worker
lowers only when it reads a node, and the payload of the tail, which every boundary forgets without
touching the other one.

A cancellation takes the worker away wherever it is, and leaves the node it may hold unread.
-/

open List Function Machine
open Option hiding max_eq_right

namespace HaskellAgent

variable {κ ε : Type*}

/-! ### Nodes and their payload -/

def EventPumpCommand.coalesced : EventPumpCommand κ ε → Option (CoalescedEvent κ ε)
  | .deliverCoalescedEvent pending => some pending
  | _ => none

/-- The coalesced nodes in the queue, or dequeued and not yet read. -/
def PumpWorld.nodes (w : PumpWorld κ ε) : List (CoalescedEvent κ ε) :=
  w.pending.filterMap EventPumpCommand.coalesced

def CoalescedEvent.isLatest : CoalescedEvent κ ε → Bool
  | .replacedEvent _ _ _ => true
  | .appendedEvent _ _ _ => false

/-- The payload of some nodes. -/
def nodesPayload (pump : EventPump κ ε) (nodes : List (CoalescedEvent κ ε)) : ℤ :=
  (nodes.map (coalescedPayloadBytes pump)).sum

/-- The payload of the tail node; `0` without one. -/
def tailPayload (pump : EventPump κ ε) : ℤ :=
  match pump.eventPumpTail with
  | none => 0
  | some pending => coalescedPayloadBytes pump pending

theorem saturatingPayloadAdd_of_le {left right : ℤ} (h : left + right ≤ maxBound) :
    saturatingPayloadAdd left right = left + right := by
  rw [saturatingPayloadAdd, if_neg (by omega)]

theorem saturatingPayloadAdd_bounds {left right : ℤ} (hl : 0 ≤ left) (hr : 0 ≤ right) :
    0 ≤ saturatingPayloadAdd left right ∧ saturatingPayloadAdd left right ≤ maxBound := by
  unfold saturatingPayloadAdd
  split <;> omega

theorem logicalTextBytesFromLength_bounds {size : ℤ} (h : 0 ≤ size) :
    0 ≤ logicalTextBytesFromLength size ∧ logicalTextBytesFromLength size ≤ maxBound := by
  unfold logicalTextBytesFromLength maxBound
  split <;> omega

theorem logicalTextBufferBytes_bounds {size chunks : ℤ} (h : 0 ≤ size) :
    0 ≤ logicalTextBufferBytes size chunks ∧ logicalTextBufferBytes size chunks ≤ maxBound := by
  apply saturatingPayloadAdd_bounds (logicalTextBytesFromLength_bounds h).1
  unfold saturatingPayloadMultiply
  split
  · rfl
  · next hpos =>
    rw [not_or, not_le, not_le] at hpos
    split
    · omega
    · exact Int.mul_nonneg hpos.1.le hpos.2.le

/-- The payload of a node is a byte count. -/
theorem coalescedPayloadBytes_bounds (pump : EventPump κ ε) (pending : CoalescedEvent κ ε) :
    0 ≤ coalescedPayloadBytes pump pending ∧ coalescedPayloadBytes pump pending ≤ maxBound := by
  cases pending with
  | appendedEvent key build buffer => exact logicalTextBufferBytes_bounds (Int.natCast_nonneg _)
  | replacedEvent key build snapshot =>
    exact logicalTextBytesFromLength_bounds (Int.natCast_nonneg _)

theorem nodesPayload_nonneg (pump : EventPump κ ε) (nodes : List (CoalescedEvent κ ε)) :
    0 ≤ nodesPayload pump nodes := by
  apply sum_nonneg
  intro bytes hmem
  obtain ⟨pending, -, rfl⟩ := List.mem_map.mp hmem
  exact (coalescedPayloadBytes_bounds pump pending).1

theorem nodesPayload_append (pump : EventPump κ ε) (nodes more : List (CoalescedEvent κ ε)) :
    nodesPayload pump (nodes ++ more) = nodesPayload pump nodes + nodesPayload pump more := by
  rw [nodesPayload, map_append, sum_append]
  rfl

/-- Nodes whose texts are the same have the same payload. -/
theorem nodesPayload_congr {pump next : EventPump κ ε} {nodes : List (CoalescedEvent κ ε)}
    (h : ∀ pending ∈ nodes,
      coalescedPayloadBytes next pending = coalescedPayloadBytes pump pending) :
    nodesPayload next nodes = nodesPayload pump nodes := by
  rw [nodesPayload, map_congr_left h]
  rfl

/-- Nodes without payload in all have none each. -/
theorem payload_eq_zero {pump : EventPump κ ε} {nodes : List (CoalescedEvent κ ε)}
    (h : nodesPayload pump nodes = 0) :
    ∀ pending ∈ nodes, coalescedPayloadBytes pump pending = 0 := by
  intro pending hmem
  obtain ⟨before, after, rfl⟩ := append_of_mem hmem
  have hsum := nodesPayload_append pump before (pending :: after)
  have hcons : nodesPayload pump (pending :: after) =
      coalescedPayloadBytes pump pending + nodesPayload pump after := by
    simp [nodesPayload]
  have hbefore := nodesPayload_nonneg pump before
  have hafter := nodesPayload_nonneg pump after
  have hpending := (coalescedPayloadBytes_bounds pump pending).1
  omega

/-! ### The accounts -/

/-- The total is the payload of one latest-text node. -/
def SingleLatest (pump : EventPump κ ε) (nodes : List (CoalescedEvent κ ε)) : Prop :=
  ∃ pending ∈ nodes, pending.isLatest ∧
    coalescedPayloadBytes pump pending = pump.eventPumpQueuedPayloadBytes ∧
    ∀ other ∈ nodes, other ≠ pending → coalescedPayloadBytes pump other = 0

/-- The counters of the pump are those of its nodes. -/
structure PumpAccounts (pump : EventPump κ ε) (nodes : List (CoalescedEvent κ ε)) : Prop where
  distinct : (nodes.map CoalescedEvent.address).Nodup
  fresh : ∀ pending ∈ nodes, pending.address < pump.fresh
  tail : ∀ pending, pump.eventPumpTail = some pending → pending ∈ nodes
  queued : pump.eventPumpQueuedPayloadBytes = nodesPayload pump nodes
  tailBytes : pump.eventPumpTailBytes = tailPayload pump
  budget : pump.eventPumpQueuedPayloadBytes ≤ eventTailPayloadBudgetBytes ∨ SingleLatest pump nodes

/-- A step that only changes the queue and the failure keeps the accounts. -/
structure SamePumpAccounts (pump next : EventPump κ ε) : Prop where
  fresh : pump.fresh ≤ next.fresh
  tail : next.eventPumpTail = pump.eventPumpTail
  tailBytes : next.eventPumpTailBytes = pump.eventPumpTailBytes
  queued : next.eventPumpQueuedPayloadBytes = pump.eventPumpQueuedPayloadBytes
  buffers : next.buffers = pump.buffers
  snapshots : next.snapshots = pump.snapshots

variable {pump next : EventPump κ ε} {nodes : List (CoalescedEvent κ ε)}

theorem SamePumpAccounts.payload (h : SamePumpAccounts pump next) (pending : CoalescedEvent κ ε) :
    coalescedPayloadBytes next pending = coalescedPayloadBytes pump pending := by
  cases pending with
  | appendedEvent key build buffer => simp only [coalescedPayloadBytes, h.buffers]
  | replacedEvent key build snapshot => simp only [coalescedPayloadBytes, h.snapshots]

namespace PumpAccounts

theorem congr (h : PumpAccounts pump nodes) (hsame : SamePumpAccounts pump next) :
    PumpAccounts next nodes where
  distinct := h.distinct
  fresh := fun pending hmem => Nat.lt_of_lt_of_le (h.fresh pending hmem) hsame.fresh
  tail := by
    rw [hsame.tail]
    exact h.tail
  queued := by
    rw [hsame.queued, h.queued]
    exact (nodesPayload_congr fun pending _ => hsame.payload pending).symm
  tailBytes := by
    rw [hsame.tailBytes, h.tailBytes, tailPayload, tailPayload, hsame.tail]
    cases pump.eventPumpTail with
    | none => rfl
    | some pending => exact (hsame.payload pending).symm
  budget := by
    simpa only [SingleLatest, hsame.queued, hsame.payload] using h.budget

/-- **A boundary forgets the tail and keeps the total.** -/
theorem clear (h : PumpAccounts pump nodes) : PumpAccounts (clearEventPumpTail pump) nodes := by
  unfold clearEventPumpTail
  split
  · exact h
  · next pending htail =>
    refine ⟨h.distinct, h.fresh, by simp, ?_, rfl, ?_⟩
    · rw [h.queued]
      exact nodesPayload_congr fun pending _ => by cases pending <;> rfl
    · rcases h.budget with hle | ⟨pending, hmem, hlatest, htotal, hothers⟩
      · exact .inl hle
      · refine .inr ⟨pending, hmem, hlatest, ?_, ?_⟩
        · rw [← htotal]
          cases pending <;> rfl
        · intro other hother hne
          rw [← hothers other hother hne]
          cases other <;> rfl

/-- The tail is one of the nodes, so its payload is a part of the total. -/
theorem tail_le (h : PumpAccounts pump nodes) :
    pump.eventPumpTailBytes ≤ pump.eventPumpQueuedPayloadBytes := by
  rw [h.queued, h.tailBytes, tailPayload]
  cases htail : pump.eventPumpTail with
  | none => exact nodesPayload_nonneg pump nodes
  | some pending =>
    apply single_le_sum
    · intro bytes hmem
      obtain ⟨other, -, rfl⟩ := List.mem_map.mp hmem
      exact (coalescedPayloadBytes_bounds pump other).1
    · exact List.mem_map_of_mem (h.tail pending htail)

end PumpAccounts

/-- **What a reservation does**, when the clamp has no effect. -/
theorem reserve_spec {oversize : Bool} {bytes : ℤ}
    (hclamp : pump.eventPumpTailBytes ≤ pump.eventPumpQueuedPayloadBytes)
    (hbytes : bytes ≤ maxBound)
    (h : reserveTailPayloadBytes pump oversize bytes = some next) :
    let retained := pump.eventPumpQueuedPayloadBytes - pump.eventPumpTailBytes
    next = { pump with
      eventPumpTailBytes := bytes
      eventPumpQueuedPayloadBytes := retained + bytes } ∧
    (retained + bytes ≤ eventTailPayloadBudgetBytes ∨ oversize = true ∧ retained = 0) := by
  intro retained
  have hmax : max 0 (pump.eventPumpQueuedPayloadBytes - pump.eventPumpTailBytes) = retained :=
    max_eq_right (by omega)
  simp only [reserveTailPayloadBytes, hmax] at h
  split at h
  · next hfits =>
    have hsum : saturatingPayloadAdd retained bytes = retained + bytes := by
      rcases hfits with hle | ⟨-, hzero⟩
      · -- a sum within the budget has not been cut off
        unfold saturatingPayloadAdd at hle ⊢
        split at hle
        · unfold eventTailPayloadBudgetBytes maxBound at hle
          omega
        · next hexact => exact if_neg hexact
      · exact saturatingPayloadAdd_of_le (by omega)
    rw [hsum] at hfits h
    exact ⟨(some.inj h).symm, hfits⟩
  · cases h

namespace PumpAccounts

/-- **A new node is added to the total.** -/
theorem startNode {base : EventPump κ ε} {pending : CoalescedEvent κ ε} {oversize : Bool}
    {bytes : ℤ} (h : PumpAccounts pump nodes) (htail : pump.eventPumpTail = none)
    (hfresh : base.fresh = pump.fresh + 1) (haddress : pending.address = pump.fresh)
    (htailBytes : base.eventPumpTailBytes = pump.eventPumpTailBytes)
    (hqueued : base.eventPumpQueuedPayloadBytes = pump.eventPumpQueuedPayloadBytes)
    (hold : ∀ other : CoalescedEvent κ ε, other.address < pump.fresh →
      coalescedPayloadBytes base other = coalescedPayloadBytes pump other)
    (hnew : coalescedPayloadBytes base pending = bytes)
    (hlatest : oversize = true → pending.isLatest = true)
    (hst : HaskellAgent.startNode base pending oversize bytes = some next) :
    PumpAccounts next (nodes ++ [pending]) := by
  rw [HaskellAgent.startNode, bind_eq_some_iff] at hst
  obtain ⟨reserved, hreserve, hwrite⟩ := hst
  -- without a tail nothing of the total is replaced
  have hzero : pump.eventPumpTailBytes = 0 := by
    rw [h.tailBytes, tailPayload, htail]
  have hnonneg := nodesPayload_nonneg pump nodes
  have hbytes := coalescedPayloadBytes_bounds base pending
  have hclamp : base.eventPumpTailBytes ≤ base.eventPumpQueuedPayloadBytes := by
    rw [htailBytes, hqueued, hzero, h.queued]
    exact hnonneg
  obtain ⟨rfl, hfits⟩ := reserve_spec (by exact hclamp) (by omega) hreserve
  rw [writeEventPumpQueue_eq hwrite]
  simp only [htailBytes, hqueued, hzero, Int.sub_zero] at hfits ⊢
  have hpayload : ∀ other, coalescedPayloadBytes
      { base with
        eventPumpQueue := base.eventPumpQueue ++ [.deliverCoalescedEvent pending]
        eventPumpTail := some pending
        eventPumpTailBytes := bytes
        eventPumpQueuedPayloadBytes := pump.eventPumpQueuedPayloadBytes + bytes } other =
      coalescedPayloadBytes base other := fun other => by cases other <;> rfl
  have hnodes : ∀ other ∈ nodes, coalescedPayloadBytes base other =
      coalescedPayloadBytes pump other := fun other hmem => hold other (h.fresh other hmem)
  constructor
  · rw [map_append, map_singleton, nodup_append']
    refine ⟨h.distinct, nodup_singleton _, ?_⟩
    intro address hmem hnewAddress
    obtain ⟨other, hother, rfl⟩ := List.mem_map.mp hmem
    have hlt := h.fresh other hother
    rw [mem_singleton.mp hnewAddress] at hlt
    omega
  · intro other hmem
    simp only [hfresh]
    rcases mem_append.mp hmem with hother | hnode
    · have hlt := h.fresh other hother
      omega
    · rw [mem_singleton.mp hnode]
      omega
  · intro other hother
    cases hother
    exact mem_append_right _ (mem_singleton_self _)
  · rw [nodesPayload_append, nodesPayload_congr fun other hmem =>
      (hpayload other).trans (hnodes other hmem), ← h.queued]
    simp [nodesPayload, hpayload, hnew]
  · rw [tailPayload]
    exact ((hpayload pending).trans hnew).symm
  · rcases hfits with hle | ⟨hoversize, hnone⟩
    · exact .inl hle
    · refine .inr ⟨pending, mem_append_right _ (mem_singleton_self _),
        hlatest hoversize, ?_, ?_⟩
      · rw [hpayload, hnew]
        simp only [hnone]
        omega
      · intro other hmem hne
        rcases mem_append.mp hmem with hother | hnode
        · rw [hpayload, hnodes other hother]
          exact payload_eq_zero (h.queued.symm.trans hnone) other hother
        · exact absurd (mem_singleton.mp hnode) hne

/-- **A changed tail replaces its part of the total.** -/
theorem merge {pending : CoalescedEvent κ ε} {bytes : ℤ} (h : PumpAccounts pump nodes)
    (htail : pump.eventPumpTail = some pending) (hsame : next.eventPumpTail = some pending)
    (hfresh : next.fresh = pump.fresh) (htailBytes : next.eventPumpTailBytes = bytes)
    (hqueued : next.eventPumpQueuedPayloadBytes =
      pump.eventPumpQueuedPayloadBytes - pump.eventPumpTailBytes + bytes)
    (hold : ∀ other : CoalescedEvent κ ε, other.address ≠ pending.address →
      coalescedPayloadBytes next other = coalescedPayloadBytes pump other)
    (hnew : coalescedPayloadBytes next pending = bytes)
    (hfits : next.eventPumpQueuedPayloadBytes ≤ eventTailPayloadBudgetBytes ∨
      pending.isLatest = true ∧ pump.eventPumpQueuedPayloadBytes - pump.eventPumpTailBytes = 0) :
    PumpAccounts next nodes := by
  have hmem := h.tail pending htail
  have hpart : pump.eventPumpTailBytes = coalescedPayloadBytes pump pending := by
    rw [h.tailBytes, tailPayload, htail]
  obtain ⟨before, after, hsplit⟩ := append_of_mem hmem
  have hdistinct := h.distinct
  rw [hsplit, map_append, map_cons, nodup_append', nodup_cons] at hdistinct
  -- the other nodes have addresses of their own, so they keep their payload
  have hbefore : ∀ other ∈ before, coalescedPayloadBytes next other =
      coalescedPayloadBytes pump other := by
    intro other hother
    apply hold
    intro heq
    exact hdistinct.2.2 (List.mem_map_of_mem hother) (heq ▸ mem_cons_self)
  have hafter : ∀ other ∈ after, coalescedPayloadBytes next other =
      coalescedPayloadBytes pump other := by
    intro other hother
    apply hold
    intro heq
    exact hdistinct.2.1.1 (heq ▸ List.mem_map_of_mem hother)
  have hsum : ∀ p : EventPump κ ε, nodesPayload p (before ++ pending :: after) =
      nodesPayload p before + (coalescedPayloadBytes p pending + nodesPayload p after) := by
    intro p
    rw [nodesPayload_append]
    simp [nodesPayload]
  have hrest : pump.eventPumpQueuedPayloadBytes - pump.eventPumpTailBytes =
      nodesPayload pump before + nodesPayload pump after := by
    rw [h.queued, hpart, hsplit, hsum]
    omega
  refine ⟨h.distinct, fun other hother => hfresh ▸ h.fresh other hother, ?_, ?_, ?_, ?_⟩
  · intro other hother
    rw [hsame] at hother
    cases hother
    exact hmem
  · rw [hqueued, hrest, hsplit, hsum, nodesPayload_congr hbefore, nodesPayload_congr hafter, hnew]
    omega
  · rw [htailBytes, tailPayload, hsame]
    exact hnew.symm
  · rcases hfits with hle | ⟨hlatest, hzero⟩
    · exact .inl hle
    · refine .inr ⟨pending, hmem, hlatest, ?_, ?_⟩
      · rw [hqueued, hzero, hnew]
        omega
      · have hb := nodesPayload_nonneg pump before
        have ha := nodesPayload_nonneg pump after
        intro other hother hne
        rw [hsplit, mem_append, mem_cons] at hother
        rcases hother with hin | rfl | hin
        · rw [hbefore other hin]
          exact payload_eq_zero (by omega) other hin
        · exact absurd rfl hne
        · rw [hafter other hin]
          exact payload_eq_zero (by omega) other hin

variable {pending : CoalescedEvent κ ε} {rest : List (CoalescedEvent κ ε)}

/-- The payload of the node at hand is a part of the total. -/
theorem first_le (h : PumpAccounts pump (pending :: rest)) :
    coalescedPayloadBytes pump pending ≤ pump.eventPumpQueuedPayloadBytes := by
  have hrest := nodesPayload_nonneg pump rest
  rw [h.queued]
  simp only [nodesPayload, map_cons, sum_cons] at hrest ⊢
  omega

/-- **Reading a node takes its payload off the total.** -/
theorem take [DecidableEq κ] (h : PumpAccounts pump (pending :: rest)) :
    PumpAccounts (takeCoalescedEvent pump pending).2 rest := by
  have hfirst := h.first_le
  have hdistinct := h.distinct
  rw [map_cons, nodup_cons] at hdistinct
  have hrest : pump.eventPumpQueuedPayloadBytes - coalescedPayloadBytes pump pending =
      nodesPayload pump rest := by
    rw [h.queued]
    simp [nodesPayload]
  have hbudget : pump.eventPumpQueuedPayloadBytes - coalescedPayloadBytes pump pending ≤
      eventTailPayloadBudgetBytes ∨ (coalescedPayloadBytes pump pending = 0 ∧
        SingleLatest pump rest) := by
    rcases h.budget with hle | ⟨node, hmem, hlatest, htotal, hothers⟩
    · have hnonneg := (coalescedPayloadBytes_bounds pump pending).1
      exact .inl (by omega)
    · rcases mem_cons.mp hmem with rfl | hin
      · rw [htotal, Int.sub_self]
        exact .inl (by decide)
      · have hne : pending ≠ node := by
          rintro rfl
          exact hdistinct.1 (List.mem_map_of_mem hin)
        exact .inr ⟨hothers pending mem_cons_self hne, node, hin, hlatest, htotal,
          fun other hother => hothers other (mem_cons_of_mem _ hother)⟩
  have hpayload : ∀ other, coalescedPayloadBytes (takeCoalescedEvent pump pending).2 other =
      coalescedPayloadBytes pump other := by
    intro other
    simp only [takeCoalescedEvent, releaseQueuedPayloadBytes]
    split <;> cases other <;> rfl
  have hqueued : (takeCoalescedEvent pump pending).2.eventPumpQueuedPayloadBytes =
      pump.eventPumpQueuedPayloadBytes - coalescedPayloadBytes pump pending := by
    have hclosed : ∀ closed : EventPump κ ε,
        closed.eventPumpQueuedPayloadBytes = pump.eventPumpQueuedPayloadBytes →
        coalescedPayloadBytes closed pending = coalescedPayloadBytes pump pending →
        (releaseQueuedPayloadBytes closed
          (coalescedPayloadBytes closed pending)).eventPumpQueuedPayloadBytes =
            pump.eventPumpQueuedPayloadBytes - coalescedPayloadBytes pump pending := by
      intro closed htotal hnode
      rw [releaseQueuedPayloadBytes, htotal, hnode]
      exact max_eq_right (by omega)
    apply hclosed
    · split <;> rfl
    · split <;> cases pending <;> rfl
  refine ⟨hdistinct.2, ?_, ?_, ?_, ?_, ?_⟩
  · intro other hmem
    have hfresh : (takeCoalescedEvent pump pending).2.fresh = pump.fresh := by
      simp only [takeCoalescedEvent, releaseQueuedPayloadBytes]
      split <;> rfl
    rw [hfresh]
    exact h.fresh other (mem_cons_of_mem _ hmem)
  · intro tail htail
    simp only [takeCoalescedEvent, releaseQueuedPayloadBytes] at htail
    split at htail
    · cases htail
    · next hdiff =>
      -- the tail is another node than the one read
      rw [htail, Bool.not_eq_true] at hdiff
      rcases mem_cons.mp (h.tail tail htail) with rfl | hin
      · exact absurd rfl (PumpInvariant.ne_of_not_sameCoalescedEvent hdiff)
      · exact hin
  · rw [hqueued, hrest]
    exact (nodesPayload_congr fun other _ => hpayload other).symm
  · have htail := h.tailBytes
    simp only [tailPayload, takeCoalescedEvent, releaseQueuedPayloadBytes] at htail ⊢
    split
    · rfl
    · rw [htail]
      cases pump.eventPumpTail with
      | none => rfl
      | some tail => cases tail <;> rfl
  · rw [hqueued]
    rcases hbudget with hle | ⟨hzero, node, hmem, hlatest, htotal, hothers⟩
    · exact .inl hle
    · refine .inr ⟨node, hmem, hlatest, ?_, ?_⟩
      · rw [hpayload, hqueued, htotal, hzero, Int.sub_zero]
      · intro other hother hne
        rw [hpayload]
        exact hothers other hother hne

end PumpAccounts

/-! ### The transactions of the producers -/

/-- The queue only grows by commands, and the accounts are those of the nodes with the new ones. -/
def KeepsPumpAccounts (pump next : EventPump κ ε) : Prop :=
  ∃ commands, next.eventPumpQueue = pump.eventPumpQueue ++ commands ∧
    ∀ nodes, PumpAccounts pump nodes →
      PumpAccounts next (nodes ++ commands.filterMap EventPumpCommand.coalesced)

theorem clearEventPumpTail_queue (pump : EventPump κ ε) :
    (clearEventPumpTail pump).eventPumpQueue = pump.eventPumpQueue := by
  unfold clearEventPumpTail
  split <;> rfl

theorem clearEventPumpTail_fresh (pump : EventPump κ ε) :
    (clearEventPumpTail pump).fresh = pump.fresh := by
  unfold clearEventPumpTail
  split <;> rfl

/-- A boundary adds no node. -/
theorem keeps_enqueueEventPumpCommand {base : EventPump κ ε} {command : EventPumpCommand κ ε}
    (hbase : SamePumpAccounts pump base) (hqueue : base.eventPumpQueue = pump.eventPumpQueue)
    (hcommand : command.coalesced = none)
    (h : enqueueEventPumpCommand base command = some next) : KeepsPumpAccounts pump next := by
  rw [enqueueEventPumpCommand] at h
  rw [writeEventPumpQueue_eq h]
  refine ⟨[command], by rw [clearEventPumpTail_queue, hqueue], ?_⟩
  intro nodes haccounts
  have hcleared := (haccounts.congr hbase).clear
  simp only [filterMap_cons, hcommand, filterMap_nil, List.append_nil]
  exact hcleared.congr ⟨Nat.le_refl _, rfl, rfl, rfl, rfl, rfl⟩

theorem payload_append (text : Text) (buffer : TextBuffer) :
    logicalTextBufferBytes (appendTextBuffer text buffer).size
        (appendTextBuffer text buffer).count =
      logicalTextBufferBytes (buffer.size + text.length)
        (buffer.count + if text.isEmpty then 0 else 1) := by
  unfold appendTextBuffer
  cases text with
  | nil | cons c cs => simp

section Text

variable {key : κ} {build : Text → ε} {text : Text}

theorem keeps_startAppendedEvent (h : startAppendedEvent pump key build text = some next) :
    KeepsPumpAccounts pump next := by
  have hqueue : next.eventPumpQueue = pump.eventPumpQueue ++
      [.deliverCoalescedEvent (.appendedEvent key build pump.fresh)] := by
    rw [startAppendedEvent, startNode, bind_eq_some_iff] at h
    obtain ⟨reserved, hreserve, hwrite⟩ := h
    obtain ⟨tail, queued, rfl⟩ := reserveTailPayloadBytes_eq hreserve
    rw [writeEventPumpQueue_eq hwrite]
    exact congrArg (· ++ _) (clearEventPumpTail_queue pump)
  refine ⟨_, hqueue, fun nodes haccounts => ?_⟩
  have hstart := h
  rw [startAppendedEvent] at hstart
  refine haccounts.clear.startNode (clearEventPumpTail_tail pump) ?_ ?_ ?_ ?_ ?_ ?_ ?_ hstart
  · rfl
  · exact (clearEventPumpTail_fresh pump).symm
  · rfl
  · rfl
  · intro other hother
    cases other with
    | appendedEvent otherKey otherBuild buffer =>
      simp only [coalescedPayloadBytes, newBuffer, CoalescedEvent.address] at hother ⊢
      rw [update_of_ne (Nat.ne_of_lt hother)]
    | replacedEvent otherKey otherBuild snapshot => rfl
  · rw [← clearEventPumpTail_fresh pump]
    simp only [coalescedPayloadBytes, newBuffer, update_self]
    rw [payload_append]
    simp [emptyTextBuffer]
  · intro hfalse
    cases hfalse

theorem keeps_startReplacedEvent (h : startReplacedEvent pump key build text = some next) :
    KeepsPumpAccounts pump next := by
  have hqueue : next.eventPumpQueue = pump.eventPumpQueue ++
      [.deliverCoalescedEvent (.replacedEvent key build pump.fresh)] := by
    rw [startReplacedEvent, startNode, bind_eq_some_iff] at h
    obtain ⟨reserved, hreserve, hwrite⟩ := h
    obtain ⟨tail, queued, rfl⟩ := reserveTailPayloadBytes_eq hreserve
    rw [writeEventPumpQueue_eq hwrite]
    exact congrArg (· ++ _) (clearEventPumpTail_queue pump)
  refine ⟨_, hqueue, fun nodes haccounts => ?_⟩
  have hstart := h
  rw [startReplacedEvent] at hstart
  refine haccounts.clear.startNode (clearEventPumpTail_tail pump) ?_ ?_ ?_ ?_ ?_ ?_ ?_ hstart
  · rfl
  · exact (clearEventPumpTail_fresh pump).symm
  · rfl
  · rfl
  · intro other hother
    cases other with
    | appendedEvent otherKey otherBuild buffer => rfl
    | replacedEvent otherKey otherBuild snapshot =>
      simp only [coalescedPayloadBytes, newSnapshot, CoalescedEvent.address] at hother ⊢
      rw [update_of_ne (Nat.ne_of_lt hother)]
  · rw [← clearEventPumpTail_fresh pump]
    simp only [coalescedPayloadBytes, newSnapshot, update_self]
  · exact fun _ => rfl

variable [DecidableEq κ]

/-- `emitAppendedText` extends the tail or starts a node. -/
theorem keeps_enqueueChunk (h : enqueueChunk pump key build text = some next) :
    KeepsPumpAccounts pump next := by
  simp only [enqueueChunk] at h
  split at h
  · next currentKey currentBuild buffer htail =>
    split at h
    · rw [map_eq_some_iff] at h
      obtain ⟨reserved, hreserve, rfl⟩ := h
      obtain ⟨tail, queued, heq⟩ := reserveTailPayloadBytes_eq hreserve
      refine ⟨[], by rw [heq, List.append_nil], fun nodes haccounts => ?_⟩
      have hbytes : logicalTextBufferBytes ((pump.buffers buffer).size + text.length)
          ((pump.buffers buffer).count + if text.isEmpty then 0 else 1) ≤ maxBound :=
        (logicalTextBufferBytes_bounds (by omega)).2
      obtain ⟨rfl, hfits⟩ := reserve_spec haccounts.tail_le hbytes hreserve
      rw [filterMap_nil, List.append_nil]
      refine haccounts.merge htail htail rfl rfl rfl ?_ ?_ ?_
      · intro other hother
        cases other with
        | appendedEvent otherKey otherBuild otherBuffer =>
          simp only [coalescedPayloadBytes, CoalescedEvent.address] at hother ⊢
          rw [update_of_ne hother]
        | replacedEvent otherKey otherBuild snapshot => rfl
      · simp only [coalescedPayloadBytes, update_self]
        exact payload_append text _
      · rcases hfits with hle | ⟨hfalse, -⟩
        · exact .inl hle
        · cases hfalse
    · exact keeps_startAppendedEvent h
  · exact keeps_startAppendedEvent h

/-- `emitLatestText` replaces the tail's snapshot or starts a node. -/
theorem keeps_enqueueSnapshot (h : enqueueSnapshot pump key build text = some next) :
    KeepsPumpAccounts pump next := by
  simp only [enqueueSnapshot] at h
  split at h
  · next currentKey currentBuild snapshot htail =>
    split at h
    · obtain ⟨tail, queued, heq⟩ := reserveTailPayloadBytes_eq h
      refine ⟨[], by rw [heq, List.append_nil], fun nodes haccounts => ?_⟩
      have hbytes : logicalSnapshotBytes text ≤ maxBound :=
        (logicalTextBytesFromLength_bounds (Int.natCast_nonneg _)).2
      obtain ⟨rfl, hfits⟩ := reserve_spec (by exact haccounts.tail_le) hbytes h
      rw [filterMap_nil, List.append_nil]
      refine haccounts.merge htail htail rfl rfl rfl ?_ ?_ ?_
      · intro other hother
        cases other with
        | appendedEvent otherKey otherBuild buffer => rfl
        | replacedEvent otherKey otherBuild otherSnapshot =>
          simp only [coalescedPayloadBytes, CoalescedEvent.address] at hother ⊢
          rw [update_of_ne hother]
      · simp only [coalescedPayloadBytes, update_self]
      · rcases hfits with hle | ⟨-, hzero⟩
        · exact .inl hle
        · exact .inr ⟨rfl, hzero⟩
    · exact keeps_startReplacedEvent h
  · exact keeps_startReplacedEvent h

/-- **Every transaction of a producer keeps the accounts.** -/
theorem keeps_enqueue {request : PumpRequest κ ε} {emissions : List (Emission κ ε)}
    {progress : PumpProgress κ ε} (h : request.enqueue pump = some (next, emissions, progress)) :
    KeepsPumpAccounts pump next := by
  cases request with
  | emitEvent event =>
    simp only [PumpRequest.enqueue, map_eq_some_iff, Prod.mk.injEq] at h
    obtain ⟨_, henqueue, rfl, -, -⟩ := h
    refine keeps_enqueueEventPumpCommand ?_ ?_ ?_ henqueue
    · exact ⟨Nat.le_refl _, rfl, rfl, rfl, rfl, rfl⟩
    · rfl
    · rfl
  | emitAppendedText key build text =>
    simp only [PumpRequest.enqueue, map_eq_some_iff, Prod.mk.injEq] at h
    obtain ⟨_, henqueue, rfl, -, -⟩ := h
    exact keeps_enqueueChunk henqueue
  | emitLatestText key build text =>
    simp only [PumpRequest.enqueue, map_eq_some_iff, Prod.mk.injEq] at h
    obtain ⟨_, henqueue, rfl, -, -⟩ := h
    exact keeps_enqueueSnapshot henqueue
  | flushEventPump =>
    simp only [PumpRequest.enqueue, map_eq_some_iff, Prod.mk.injEq] at h
    obtain ⟨_, henqueue, rfl, -, -⟩ := h
    refine keeps_enqueueEventPumpCommand ?_ ?_ ?_ henqueue
    · exact ⟨Nat.le_succ _, rfl, rfl, rfl, rfl, rfl⟩
    · rfl
    · rfl

end Text

/-! ### The pump with a worker that may be cancelled -/

def PumpEvent.ofWorker : PumpEvent κ ε → Bool
  | .dequeue => true
  | .take => true
  | .acknowledge => true
  | .sinkReturns => true
  | .sinkFails => true
  | .recordFailure => true
  | _ => false

inductive AccountedEvent (κ ε : Type*)
  | move (event : PumpEvent κ ε)
  /-- The worker is cancelled and publishes that. -/
  | cancel

structure AccountedPump (κ ε : Type*) where
  world : PumpWorld κ ε
  cancelled : Bool

def AccountedPump.initial : AccountedPump κ ε where
  world := .initial
  cancelled := false

def AccountedPump.step [DecidableEq κ] (p : AccountedPump κ ε) :
    AccountedEvent κ ε → Option (AccountedPump κ ε)
  | .move event =>
    if p.cancelled && event.ofWorker then none
    else (p.world.step event).map fun world => { p with world }
  | .cancel =>
    some { world := { p.world with pump := { p.world.pump with eventPumpFailure := true } }
           cancelled := true }

variable {w w' : PumpWorld κ ε}

theorem nodes_of_queue {commands : List (EventPumpCommand κ ε)} (hworker : w'.worker = w.worker)
    (hqueue : w'.pump.eventPumpQueue = w.pump.eventPumpQueue ++ commands) :
    w'.nodes = w.nodes ++ commands.filterMap EventPumpCommand.coalesced := by
  rw [PumpWorld.nodes, PumpWorld.nodes, PumpWorld.pending, PumpWorld.pending, hworker, hqueue,
    ← append_assoc, filterMap_append]

/-- **Every move keeps the accounts.** -/
theorem accounts_step [DecidableEq κ] (h : PumpAccounts w.pump w.nodes) {event : PumpEvent κ ε}
    (hst : w.step event = some w') : PumpAccounts w'.pump w'.nodes := by
  cases event with
  | call request =>
    cases hst
    exact h
  | enqueue index =>
    simp only [PumpWorld.step] at hst
    split at hst
    · split at hst
      · cases hst
        exact h
      · rw [map_eq_some_iff] at hst
        obtain ⟨⟨pump, emissions, progress⟩, henqueue, rfl⟩ := hst
        obtain ⟨commands, hqueue, hkeeps⟩ := keeps_enqueue henqueue
        have hnext := hkeeps w.nodes h
        have hnodes : PumpWorld.nodes { w with pump } =
            w.nodes ++ commands.filterMap EventPumpCommand.coalesced := nodes_of_queue rfl hqueue
        rw [← hnodes] at hnext
        exact hnext
    · cases hst
  | wake index =>
    simp only [PumpWorld.step] at hst
    split at hst
    · split at hst
      · cases hst
        exact h
      · split at hst
        · cases hst
          exact h
        · cases hst
    · cases hst
  | dequeue =>
    simp only [PumpWorld.step] at hst
    split at hst
    · next command rest hworker hqueue =>
      have hnodes : w.nodes = (command :: rest).filterMap EventPumpCommand.coalesced := by
        rw [PumpWorld.nodes, PumpWorld.pending, hworker, hqueue]
        rfl
      have hsame : SamePumpAccounts w.pump { w.pump with eventPumpQueue := rest } :=
        ⟨Nat.le_refl _, rfl, rfl, rfl, rfl, rfl⟩
      have hnext := h.congr hsame
      rw [hnodes] at hnext
      split at hst <;> cases hst <;> exact hnext
    · cases hst
  | take =>
    simp only [PumpWorld.step] at hst
    split at hst
    · next pending hworker =>
      cases hst
      have hnodes : w.nodes =
          pending :: w.pump.eventPumpQueue.filterMap EventPumpCommand.coalesced := by
        rw [PumpWorld.nodes, PumpWorld.pending, hworker]
        rfl
      rw [hnodes] at h
      have hqueue : (takeCoalescedEvent w.pump pending).2.eventPumpQueue =
          w.pump.eventPumpQueue := by
        simp only [takeCoalescedEvent, releaseQueuedPayloadBytes]
        split <;> rfl
      have hnext := h.take
      rw [← hqueue] at hnext
      exact hnext
    · cases hst
  | acknowledge =>
    simp only [PumpWorld.step] at hst
    split at hst
    · next flushed hworker =>
      cases hst
      have hnodes : w.nodes = w.pump.eventPumpQueue.filterMap EventPumpCommand.coalesced := by
        rw [PumpWorld.nodes, PumpWorld.pending, hworker]
        rfl
      rw [hnodes] at h
      exact h.congr ⟨Nat.le_refl _, rfl, rfl, rfl, rfl, rfl⟩
    · cases hst
  | sinkReturns | sinkFails | recordFailure =>
    simp only [PumpWorld.step] at hst
    split at hst
    · next hworker =>
      cases hst
      have hnodes : w.nodes = w.pump.eventPumpQueue.filterMap EventPumpCommand.coalesced := by
        rw [PumpWorld.nodes, PumpWorld.pending, hworker]
        rfl
      rw [hnodes] at h
      exact h.congr ⟨Nat.le_refl _, rfl, rfl, rfl, rfl, rfl⟩
    · cases hst

theorem accounts_initial :
    PumpAccounts (PumpWorld.initial : PumpWorld κ ε).pump
      (PumpWorld.initial : PumpWorld κ ε).nodes where
  distinct := nodup_nil
  fresh := by
    intro pending hmem
    cases hmem
  tail := by
    intro pending htail
    cases htail
  queued := rfl
  tailBytes := rfl
  budget := by
    left
    change (0 : ℤ) ≤ eventTailPayloadBudgetBytes
    decide

theorem accounts_of_reachable [DecidableEq κ] {p : AccountedPump κ ε}
    (h : Reachable AccountedPump.step AccountedPump.initial p) :
    PumpAccounts p.world.pump p.world.nodes := by
  refine h.invariant (I := fun p => PumpAccounts p.world.pump p.world.nodes) accounts_initial ?_
  rintro p event p' hp - hst
  cases event with
  | move event =>
    simp only [AccountedPump.step] at hst
    split at hst
    · cases hst
    · obtain ⟨world, hworld, rfl⟩ := map_eq_some_iff.mp hst
      exact accounts_step hp hworld
  | cancel =>
    cases hst
    exact hp.congr ⟨Nat.le_refl _, rfl, rfl, rfl, rfl, rfl⟩

/-! ### Progress -/

/-- A chunk of a text fits the budget on its own. -/
theorem chunk_fits (text : Text) :
    logicalTextBufferBytes (nextChunk text).1.length (if (nextChunk text).1.isEmpty then 0 else 1) ≤
      eventTailPayloadBudgetBytes := by
  have hlength : (nextChunk text).1.length ≤ eventTailPayloadBudgetCodeUnits := by
    unfold nextChunk
    split
    · next hempty =>
      rw [List.isEmpty_iff] at hempty
      simp [hempty]
    · split
      · assumption
      · simp [splitAt_eq]
  have hsize : logicalTextBytesFromLength ((nextChunk text).1.length : ℤ) =
      (nextChunk text).1.length * 4 := by
    unfold logicalTextBytesFromLength maxBound
    unfold eventTailPayloadBudgetCodeUnits at hlength
    rw [if_neg (by omega)]
  have hchunks :
      saturatingPayloadMultiply (if (nextChunk text).1.isEmpty then 0 else 1) 64 ≤ 64 := by
    split <;> decide
  unfold eventTailPayloadBudgetCodeUnits at hlength
  unfold logicalTextBufferBytes eventTailPayloadBudgetBytes
  rw [hsize, saturatingPayloadAdd_of_le (by unfold maxBound; omega)]
  omega

/-- **Once the nodes are read, a chunk is admitted** as soon as the queue has a slot. -/
theorem enqueueChunk_drained [DecidableEq κ] (h : PumpAccounts pump [])
    (hslot : pump.eventPumpQueue.length < eventQueueCapacity) (key : κ) (build : Text → ε)
    (text : Text) : (enqueueChunk pump key build (nextChunk text).1).isSome := by
  have htail : pump.eventPumpTail = none := by
    cases htail : pump.eventPumpTail with
    | none => rfl
    | some pending => exact absurd (h.tail pending htail) not_mem_nil
  have hqueued : pump.eventPumpQueuedPayloadBytes = 0 := h.queued
  have htailBytes : pump.eventPumpTailBytes = 0 := by
    rw [h.tailBytes, tailPayload, htail]
  have hfits := chunk_fits text
  have hclear : clearEventPumpTail pump = pump := by
    rw [clearEventPumpTail, htail]
  have hbytes : ∀ bytes : ℤ, bytes ≤ eventTailPayloadBudgetBytes →
      saturatingPayloadAdd (max 0 (0 - 0)) bytes ≤ eventTailPayloadBudgetBytes := by
    intro bytes hle
    unfold saturatingPayloadAdd
    split
    · unfold eventTailPayloadBudgetBytes maxBound at *
      omega
    · simpa using hle
  simp only [enqueueChunk, htail, startAppendedEvent, hclear, startNode, newBuffer,
    reserveTailPayloadBytes, hqueued, htailBytes]
  rw [if_pos (.inl (hbytes _ hfits)), Option.bind_some, writeEventPumpQueue, if_pos hslot]
  rfl

/-- **The byte accounts of the event pump.**  In every interleaving of producers, flushes and a
worker that may be cancelled at any time, the counters are the payload of the pending nodes and of
the tail, no clamp has an effect, the total exceeds the budget only where it is the payload of one
latest-text node, and a chunk is admitted once the pending nodes have been read. -/
theorem pump_payload_accounted [DecidableEq κ] {p : AccountedPump κ ε}
    (h : Reachable AccountedPump.step AccountedPump.initial p) :
    p.world.pump.eventPumpQueuedPayloadBytes =
        (p.world.nodes.map (coalescedPayloadBytes p.world.pump)).sum ∧
    p.world.pump.eventPumpTailBytes =
        (p.world.pump.eventPumpTail.map (coalescedPayloadBytes p.world.pump)).getD 0 ∧
    (0 ≤ p.world.pump.eventPumpQueuedPayloadBytes - p.world.pump.eventPumpTailBytes ∧
      0 ≤ p.world.pump.eventPumpQueuedPayloadBytes ∧
      ∀ pending, p.world.worker = .taken pending →
        0 ≤ p.world.pump.eventPumpQueuedPayloadBytes -
          coalescedPayloadBytes p.world.pump pending) ∧
    (eventTailPayloadBudgetBytes < p.world.pump.eventPumpQueuedPayloadBytes →
      ∃ pending ∈ p.world.nodes, pending.isLatest ∧
        coalescedPayloadBytes p.world.pump pending = p.world.pump.eventPumpQueuedPayloadBytes ∧
        ∀ other ∈ p.world.nodes, other ≠ pending →
          coalescedPayloadBytes p.world.pump other = 0) ∧
    (p.world.nodes = [] → p.world.pump.eventPumpQueue.length < eventQueueCapacity →
      ∀ key build text,
        ((PumpRequest.emitAppendedText key build text).enqueue p.world.pump).isSome) := by
  have haccounts := accounts_of_reachable h
  refine ⟨haccounts.queued, ?_, ⟨?_, ?_, ?_⟩, ?_, ?_⟩
  · rw [haccounts.tailBytes, tailPayload]
    cases p.world.pump.eventPumpTail <;> rfl
  · exact Int.sub_nonneg.mpr haccounts.tail_le
  · rw [haccounts.queued]
    exact nodesPayload_nonneg _ _
  · intro pending hworker
    have hnodes : p.world.nodes = pending ::
        p.world.pump.eventPumpQueue.filterMap EventPumpCommand.coalesced := by
      rw [PumpWorld.nodes, PumpWorld.pending, hworker]
      rfl
    rw [hnodes] at haccounts
    exact Int.sub_nonneg.mpr haccounts.first_le
  · exact fun hover => haccounts.budget.resolve_left (by omega)
  · intro hdrained hslot key build text
    rw [hdrained] at haccounts
    simp only [PumpRequest.enqueue, isSome_map]
    exact enqueueChunk_drained haccounts hslot key build text

/-- Two texts of one key around the worker's first transaction, a boundary, and a cancellation while
the worker holds their node. -/
def accountedRun : List (AccountedEvent ℕ Text) :=
  [.move (.call (.emitAppendedText 0 id "a".toList)), .move (.enqueue 0), .move .dequeue,
    .move (.call (.emitAppendedText 0 id "b".toList)), .move (.enqueue 1),
    .move (.call (.emitEvent "c".toList)), .move (.enqueue 2), .cancel]

theorem pump_payload_accounted_in_accountedRun :
    ∃ p : AccountedPump ℕ Text, Reachable AccountedPump.step AccountedPump.initial p ∧
      p.world.pump.eventPumpQueuedPayloadBytes = 136 ∧
      p.world.pump.eventPumpQueuedPayloadBytes =
        (p.world.nodes.map (coalescedPayloadBytes p.world.pump)).sum := by
  have hrun : (Machine.run AccountedPump.step
      (AccountedPump.initial : AccountedPump ℕ Text) accountedRun).any
        (fun p => p.world.pump.eventPumpQueuedPayloadBytes == 136) = true := by
    decide +kernel
  obtain ⟨p, hreach, hbytes⟩ := exists_reachable_of_run hrun
  exact ⟨p, hreach, by simpa using hbytes, (pump_payload_accounted hreach).1⟩

end HaskellAgent
