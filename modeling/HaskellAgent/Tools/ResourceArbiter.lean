import HaskellAgent.Lib.KeyedList
import HaskellAgent.Lib.Lists
import HaskellAgent.Lib.Machine
import HaskellAgent.Tools.Scheduling

/-!
# The resource arbiter

Tool workers of one runtime share a `ToolResourceArbiter`.  A call is admitted under the next
ticket, waits until no running claim and no claim admitted before it conflicts with its own, runs
its action, and gives the claim back, however the action ends; a waiter that is cancelled gives it
back too.
-/

open List Option KeyedList Machine

namespace HaskellAgent

variable {π : Type}

/-! ### The arbiter -/

structure Claim (π : Type) where
  resources : List (ToolResourceClaim π)
  running : Bool

structure ArbiterState (π : Type) where
  closed : Bool
  nextTicket : ℕ
  /-- The claims by ticket. -/
  claims : List (ℕ × Claim π)

inductive ToolResourceArbiterError
  | closed
  | full
  deriving DecidableEq, Repr

/-- A new arbiter; the capacity must be positive. -/
def newToolResourceArbiter (capacity : ℤ) : Option (ArbiterState π) :=
  if capacity ≤ 0 then none else some { closed := false, nextTicket := 0, claims := [] }

/-- The `admit` of the source: a request gets the next ticket, or is refused at once. -/
def admitTicket (capacity : ℤ) (resources : List (ToolResourceClaim π)) (state : ArbiterState π) :
    Except ToolResourceArbiterError (ℕ × ArbiterState π) :=
  if state.closed then .error .closed
  else if (state.claims.length : ℤ) ≥ capacity then .error .full
  else
    let ticket := state.nextTicket
    .ok (ticket,
      { state with
        nextTicket := ticket + 1
        claims :=
          KeyedList.insert Prod.fst (ticket, { resources, running := false }) state.claims })

/-- `Map.delete` of a ticket. -/
def releaseTicket (ticket : ℕ) (state : ArbiterState π) : ArbiterState π :=
  { state with claims := KeyedList.delete Prod.fst ticket state.claims }

def closeToolResourceArbiter (state : ArbiterState π) : ArbiterState π :=
  { state with closed := true }

/-- Mark the claim of a ticket as running. -/
def markRunning (ticket : ℕ) (claims : List (ℕ × Claim π)) : List (ℕ × Claim π) :=
  claims.map fun entry =>
    if entry.1 = ticket then (entry.1, { entry.2 with running := true }) else entry

variable [DecidableEq π] (sys : PathSystem π)

/-- Whether a claim keeps a ticket from running. -/
def blocks (ticket : ℕ) (resources : List (ToolResourceClaim π)) (entry : ℕ × Claim π) : Bool :=
  entry.1 != ticket && (entry.2.running || decide (entry.1 < ticket)) &&
    schedulingPlansConflict sys (.resourceClaims resources) (.resourceClaims entry.2.resources)

/-- Run a ticket; `none` while another claim blocks it. -/
def acquire (ticket : ℕ) (resources : List (ToolResourceClaim π)) (state : ArbiterState π) :
    Option (Except ToolResourceArbiterError (ArbiterState π)) :=
  if state.closed then some (.error .closed)
  else if state.claims.foldr (fun entry conflict => conflict || blocks sys ticket resources entry)
      false then none
  else some (.ok { state with claims := markRunning ticket state.claims })

/-! ### Calls -/

/-- Where a call of `withToolResources` is. -/
inductive LeasePhase
  | entering
  /-- Refused by `admitTicket`. -/
  | rejected
  | waiting (ticket : ℕ)
  /-- The arbiter was closed while it waited; the claim is still to be released. -/
  | refused (ticket : ℕ)
  /-- The action runs. -/
  | holding (ticket : ℕ)
  | done
  deriving DecidableEq, Repr

structure LeaseCall (π : Type) where
  resources : List (ToolResourceClaim π)
  phase : LeasePhase

inductive ArbiterEntry (π : Type)
  | admitted (ticket : ℕ) (resources : List (ToolResourceClaim π))
  | granted (ticket : ℕ)
  | released (ticket : ℕ)

/-- The arbiter, the calls, and what happened so far. -/
structure ArbiterWorld (π : Type) where
  state : ArbiterState π
  calls : List (LeaseCall π)
  log : List (ArbiterEntry π)

inductive ArbiterEvent (π : Type)
  | call (resources : List (ToolResourceClaim π))
  | admitCall (index : ℕ)
  | acquire (index : ℕ)
  /-- The action ended, or the call was cancelled. -/
  | release (index : ℕ)
  | close

def ArbiterWorld.initial (state : ArbiterState π) : ArbiterWorld π where
  state
  calls := []
  log := []

/-- The ticket a call has to give back. -/
def LeasePhase.ticket : LeasePhase → Option ℕ
  | .waiting ticket => some ticket
  | .refused ticket => some ticket
  | .holding ticket => some ticket
  | _ => none

/-- The moves of the calls. -/
def ArbiterWorld.step (capacity : ℤ) (w : ArbiterWorld π) : ArbiterEvent π → Option (ArbiterWorld π)
  | .call resources => some { w with calls := w.calls ++ [{ resources, phase := .entering }] }
  | .admitCall index =>
      match w.calls[index]? with
      | some { resources, phase := .entering } =>
          match HaskellAgent.admitTicket capacity resources w.state with
          | .error _ => some { w with calls := w.calls.set index { resources, phase := .rejected } }
          | .ok (ticket, state) =>
              some
                { state
                  calls := w.calls.set index { resources, phase := .waiting ticket }
                  log := w.log ++ [.admitted ticket resources] }
      | _ => none
  | .acquire index =>
      match w.calls[index]? with
      | some { resources, phase := .waiting ticket } =>
          (HaskellAgent.acquire sys ticket resources w.state).map fun
            | .error _ =>
                { w with calls := w.calls.set index { resources, phase := .refused ticket } }
            | .ok state =>
                { state
                  calls := w.calls.set index { resources, phase := .holding ticket }
                  log := w.log ++ [.granted ticket] }
      | _ => none
  | .release index =>
      w.calls[index]?.bind fun call => call.phase.ticket.map fun ticket =>
        { state := releaseTicket ticket w.state
          calls := w.calls.set index { call with phase := .done }
          log := w.log ++ [.released ticket] }
  | .close => some { w with state := closeToolResourceArbiter w.state }

/-! ### The invariant -/

/-- Whether two lists of claims exclude each other. -/
def conflicting (left right : List (ToolResourceClaim π)) : Bool :=
  schedulingPlansConflict sys (.resourceClaims left) (.resourceClaims right)

/-- Every grant comes after the release of all conflicting requests with smaller tickets. -/
def GrantedInOrder (log : List (ArbiterEntry π)) : Prop :=
  ∀ pre post later, log = pre ++ .granted later :: post →
    ∀ earlier resources resources', .admitted earlier resources ∈ log →
      .admitted later resources' ∈ log → earlier < later →
      conflicting sys resources resources' = true →
      .released earlier ∈ pre ∧ .granted earlier ∉ post

section

variable {sys} {log : List (ArbiterEntry π)}

/-- An entry that is no grant keeps the order, if it is no admission of a ticket already granted or
before one. -/
theorem GrantedInOrder.append {entry : ArbiterEntry π} (h : GrantedInOrder sys log)
    (hgrant : ∀ t, entry ≠ .granted t)
    (hadmission : ∀ t rs, entry = .admitted t rs → ∀ later, .granted later ∈ log → later < t) :
    GrantedInOrder sys (log ++ [entry]) := by
  intro pre post later hsplit earlier rs rs' hearlier hlater hlt hconflict
  rcases List.concat_eq_append_cons hsplit with ⟨post', rfl, rfl⟩ | ⟨-, hentry, -⟩
  · have hmem : ArbiterEntry.granted later ∈ pre ++ .granted later :: post' := by simp
    have hold : ∀ t rs, .admitted t rs ∈ (pre ++ .granted later :: post') ++ [entry] → t ≤ later →
        .admitted t rs ∈ pre ++ .granted later :: post' := by
      intro t rs ht hle
      rcases mem_append.mp ht with ht | ht
      · exact ht
      · rw [mem_singleton] at ht
        have := hadmission t rs ht.symm later hmem
        omega
    obtain ⟨hrel, hnot⟩ := h pre post' later rfl earlier rs rs' (hold _ _ hearlier (by omega))
      (hold _ _ hlater (by omega)) hlt hconflict
    refine ⟨hrel, ?_⟩
    intro hmem
    rcases mem_append.mp hmem with hmem | hmem
    · exact hnot hmem
    · rw [mem_singleton] at hmem
      exact hgrant earlier hmem.symm
  · exact absurd hentry.symm (hgrant later)

end

/-- The claims and the log. -/
structure ClaimsInvariant (capacity : ℤ) (state : ArbiterState π) (log : List (ArbiterEntry π)) :
    Prop where
  keys : KeyedList.DistinctKeys Prod.fst state.claims
  fresh : ∀ entry ∈ state.claims, entry.1 < state.nextTicket
  capacity : (state.claims.length : ℤ) ≤ capacity
  exclusive : ∀ a ∈ state.claims, ∀ b ∈ state.claims, a.1 ≠ b.1 → a.2.running = true →
    b.2.running = true → conflicting sys a.2.resources b.2.resources = false
  admitted : ∀ entry ∈ state.claims, .admitted entry.1 entry.2.resources ∈ log
  tickets : ∀ ticket resources, .admitted ticket resources ∈ log → ticket < state.nextTicket
  functional : ∀ ticket resources resources', .admitted ticket resources ∈ log →
    .admitted ticket resources' ∈ log → resources = resources'
  granted : ∀ ticket, .granted ticket ∈ log → ticket < state.nextTicket
  /-- An admitted request has its claim until it is released. -/
  settled : ∀ ticket resources, .admitted ticket resources ∈ log →
    (∃ claim, (ticket, claim) ∈ state.claims) ∨ .released ticket ∈ log
  released : ∀ ticket, .released ticket ∈ log → ticket < state.nextTicket ∧
    ∀ entry ∈ state.claims, entry.1 ≠ ticket
  order : GrantedInOrder sys log

/-- The calls and their claims. -/
structure LeasesInvariant (state : ArbiterState π) (calls : List (LeaseCall π)) : Prop where
  /-- A call with a ticket has the claim of the ticket. -/
  held : ∀ (index : ℕ) (call : LeaseCall π) (ticket : ℕ), calls[index]? = some call →
    call.phase.ticket = some ticket → ∃ claim, (ticket, claim) ∈ state.claims ∧
      claim.resources = call.resources ∧ (claim.running = true ↔ call.phase = .holding ticket)
  distinct : ∀ (i j : ℕ) (call call' : LeaseCall π) (ticket : ℕ), calls[i]? = some call →
    calls[j]? = some call' → call.phase.ticket = some ticket →
    call'.phase.ticket = some ticket → i = j
  owned : ∀ entry ∈ state.claims, ∃ (index : ℕ) (call : LeaseCall π),
    calls[index]? = some call ∧ call.phase.ticket = some entry.1
  /-- A call is refused only by a closed arbiter. -/
  refused : ∀ (index : ℕ) (call : LeaseCall π) (ticket : ℕ), calls[index]? = some call →
    call.phase = .refused ticket → state.closed = true

namespace ClaimsInvariant

variable {sys} {capacity : ℤ} {state next : ArbiterState π} {log : List (ArbiterEntry π)}
  {ticket : ℕ} {resources : List (ToolResourceClaim π)}

theorem initial (h : newToolResourceArbiter capacity = some state) :
    ClaimsInvariant sys capacity state [] := by
  unfold newToolResourceArbiter at h
  split at h
  · cases h
  · next hcapacity =>
    cases h
    refine ⟨nodup_nil, ?_, ?_, ?_, ?_, ?_, ?_, ?_, ?_, ?_, ?_⟩ <;> simp [GrantedInOrder]
    omega

theorem conflicting_comm (left right : List (ToolResourceClaim π)) :
    conflicting sys left right = conflicting sys right left :=
  schedulingPlansConflict_comm sys _ _

omit [DecidableEq π] in
/-- An admission finds room and takes the next ticket. -/
theorem of_admitTicket
    (h : HaskellAgent.admitTicket capacity resources state = .ok (ticket, next)) :
    (state.claims.length : ℤ) < capacity ∧ ticket = state.nextTicket ∧
      next = { state with
        nextTicket := state.nextTicket + 1
        claims := KeyedList.insert Prod.fst (state.nextTicket, { resources, running := false })
          state.claims } := by
  unfold HaskellAgent.admitTicket at h
  split at h
  · cases h
  · split at h
    · cases h
    · next hroom =>
      simp only [Except.ok.injEq, Prod.mk.injEq] at h
      exact ⟨not_le.mp hroom, h.1.symm, h.2.symm⟩

/-- **Admission takes a new ticket and one place.** -/
theorem admitTicket (h : ClaimsInvariant sys capacity state log)
    (hadmission : HaskellAgent.admitTicket capacity resources state = .ok (ticket, next)) :
    ClaimsInvariant sys capacity next (log ++ [.admitted ticket resources]) ∧
      ticket = state.nextTicket ∧ next.closed = state.closed ∧
      next.claims = KeyedList.insert Prod.fst (ticket, { resources, running := false })
        state.claims := by
  obtain ⟨hroom, rfl, rfl⟩ := of_admitTicket hadmission
  have hnew : ∀ entry ∈ state.claims, entry.1 ≠ state.nextTicket :=
    fun entry hentry => by have := h.fresh entry hentry; omega
  have hmem (entry : ℕ × Claim π) := mem_insert_of_new (b := entry)
    (a := (state.nextTicket, ({ resources, running := false } : Claim π))) hnew
  have hlen := length_insert
    (a := (state.nextTicket, ({ resources, running := false } : Claim π))) hnew
  refine ⟨⟨h.keys.insert _, ?_, ?_, ?_, ?_, ?_, ?_, ?_, ?_, ?_, ?_⟩, rfl, rfl, rfl⟩
  · intro entry hentry
    rcases (hmem entry).mp hentry with rfl | hold
    · exact Nat.lt_succ_self _
    · exact Nat.lt_succ_of_lt (h.fresh entry hold)
  · simp only [hlen]
    omega
  · intro a ha b hb hab hra hrb
    rcases (hmem a).mp ha with rfl | ha
    · cases hra
    · rcases (hmem b).mp hb with rfl | hb
      · cases hrb
      · exact h.exclusive a ha b hb hab hra hrb
  · intro entry hentry
    rcases (hmem entry).mp hentry with rfl | hold
    · simp
    · exact mem_append_left _ (h.admitted entry hold)
  · intro t rs ht
    rcases mem_append.mp ht with ht | ht
    · exact Nat.lt_succ_of_lt (h.tickets t rs ht)
    · rw [mem_singleton, ArbiterEntry.admitted.injEq] at ht
      rw [ht.1]
      exact Nat.lt_succ_self _
  · intro t rs rs' ht ht'
    rw [mem_append, mem_singleton] at ht ht'
    rcases ht with ht | ht <;> rcases ht' with ht' | ht'
    · exact h.functional t rs rs' ht ht'
    · have := h.tickets t rs ht
      rw [ArbiterEntry.admitted.injEq] at ht'
      omega
    · have := h.tickets t rs' ht'
      rw [ArbiterEntry.admitted.injEq] at ht
      omega
    · rw [ArbiterEntry.admitted.injEq] at ht ht'
      rw [ht.2, ht'.2]
  · intro t ht
    rcases mem_append.mp ht with ht | ht
    · exact Nat.lt_succ_of_lt (h.granted t ht)
    · simp at ht
  · intro t rs ht
    rcases mem_append.mp ht with ht | ht
    · rcases h.settled t rs ht with ⟨claim, hclaim⟩ | hrel
      · exact .inl ⟨claim, (hmem _).mpr (.inr hclaim)⟩
      · exact .inr (mem_append_left _ hrel)
    · rw [mem_singleton, ArbiterEntry.admitted.injEq] at ht
      exact .inl ⟨_, (hmem _).mpr (.inl (by rw [ht.1]))⟩
  · intro t ht
    rcases mem_append.mp ht with ht | ht
    · obtain ⟨hlt, hnone⟩ := h.released t ht
      refine ⟨Nat.lt_succ_of_lt hlt, fun entry hentry => ?_⟩
      rcases (hmem entry).mp hentry with rfl | hold
      · exact Nat.ne_of_gt hlt
      · exact hnone entry hold
    · simp at ht
  · refine h.order.append (by simp) ?_
    intro t rs heq later hlater
    rw [ArbiterEntry.admitted.injEq] at heq
    rw [← heq.1]
    exact h.granted later hlater

omit [DecidableEq π] in
theorem mem_markRunning {claims : List (ℕ × Claim π)} {entry : ℕ × Claim π} :
    entry ∈ markRunning ticket claims ↔ ∃ old ∈ claims, entry.1 = old.1 ∧
      entry.2.resources = old.2.resources ∧
      entry.2.running = (old.2.running || decide (old.1 = ticket)) := by
  simp only [markRunning, List.mem_map]
  refine exists_congr fun old => and_congr_right fun _ => ?_
  obtain ⟨t, ⟨rs, running⟩⟩ := entry
  obtain ⟨t', ⟨rs', running'⟩⟩ := old
  by_cases ht : t' = ticket
  · simp only [ht, if_true, Prod.mk.injEq, Claim.mk.injEq, decide_true, Bool.or_true]
    constructor
    · rintro ⟨rfl, rfl, rfl⟩
      exact ⟨rfl, rfl, rfl⟩
    · rintro ⟨rfl, rfl, rfl⟩
      exact ⟨rfl, rfl, rfl⟩
  · simp only [ht, if_false, Prod.mk.injEq, Claim.mk.injEq, decide_false, Bool.or_false]
    constructor
    · rintro ⟨rfl, rfl, rfl⟩
      exact ⟨rfl, rfl, rfl⟩
    · rintro ⟨rfl, rfl, rfl⟩
      exact ⟨rfl, rfl, rfl⟩

theorem foldr_blocks (claims : List (ℕ × Claim π)) :
    claims.foldr (fun entry conflict => conflict || blocks sys ticket resources entry) false
      = claims.any (blocks sys ticket resources) := by
  induction claims with
  | nil => rfl
  | cons entry claims ih => rw [foldr_cons, ih, any_cons, Bool.or_comm]

/-- A grant finds the arbiter open and no claim in the way. -/
theorem of_acquire (h : acquire sys ticket resources state = some (.ok next)) :
    state.closed = false ∧ (∀ entry ∈ state.claims, blocks sys ticket resources entry = false) ∧
      next = { state with claims := markRunning ticket state.claims } := by
  unfold acquire at h
  split at h
  · simp at h
  · next hopen =>
    rw [foldr_blocks] at h
    split at h
    · cases h
    · next hfree =>
      rw [some.injEq, Except.ok.injEq] at h
      rw [Bool.not_eq_true, List.any_eq_false] at hfree
      refine ⟨by simpa using hopen, fun entry hentry => ?_, h.symm⟩
      simpa using hfree entry hentry

/-- A claim that does not block either does not conflict or is a later waiter. -/
theorem not_conflicting_of_not_blocks {entry : ℕ × Claim π}
    (h : blocks sys ticket resources entry = false) (hne : entry.1 ≠ ticket)
    (hahead : entry.2.running = true ∨ entry.1 < ticket) :
    conflicting sys resources entry.2.resources = false := by
  have hne' : (entry.1 != ticket) = true := bne_iff_ne.mpr hne
  have hahead' : (entry.2.running || decide (entry.1 < ticket)) = true := by simpa using hahead
  simpa [blocks, hne', hahead', conflicting] using h

section

variable (h : ClaimsInvariant sys capacity state log)
include h

/-- What is granted does not conflict with what runs. -/
theorem exclusive_of_grant
    (hfree : ∀ entry ∈ state.claims, blocks sys ticket resources entry = false) {claim : Claim π}
    (hclaim : (ticket, claim) ∈ state.claims) (hresources : claim.resources = resources)
    {a b : ℕ × Claim π} (ha : a ∈ markRunning ticket state.claims)
    (hb : b ∈ markRunning ticket state.claims) (hab : a.1 ≠ b.1) (hra : a.2.running = true)
    (hrb : b.2.running = true) : conflicting sys a.2.resources b.2.resources = false := by
  have hgranted : ∀ entry ∈ state.claims, entry.1 = ticket → entry.2.resources = resources := by
    intro entry hentry hkey
    rw [h.keys.eq_of_mem hentry hclaim hkey, ← hresources]
  obtain ⟨a', ha', hakey, hares, harun⟩ := mem_markRunning.mp ha
  obtain ⟨b', hb', hbkey, hbres, hbrun⟩ := mem_markRunning.mp hb
  rw [hares, hbres]
  rw [harun, Bool.or_eq_true, decide_eq_true_eq] at hra
  rw [hbrun, Bool.or_eq_true, decide_eq_true_eq] at hrb
  rw [hakey, hbkey] at hab
  -- at most one of the two is the claim just granted
  by_cases hat : a'.1 = ticket
  · have hbt : b'.1 ≠ ticket := fun hbt => hab (hat.trans hbt.symm)
    rw [hgranted a' ha' hat]
    exact not_conflicting_of_not_blocks (hfree b' hb') hbt (.inl (hrb.resolve_right hbt))
  · by_cases hbt : b'.1 = ticket
    · rw [conflicting_comm, hgranted b' hb' hbt]
      exact not_conflicting_of_not_blocks (hfree a' ha') hat (.inl (hra.resolve_right hat))
    · exact h.exclusive a' ha' b' hb' hab (hra.resolve_right hat) (hrb.resolve_right hbt)

/-- A grant comes after the release of every conflicting request with a smaller ticket. -/
theorem order_of_grant
    (hfree : ∀ entry ∈ state.claims, blocks sys ticket resources entry = false) {claim : Claim π}
    (hclaim : (ticket, claim) ∈ state.claims) (hresources : claim.resources = resources) :
    GrantedInOrder sys (log ++ [.granted ticket]) := by
  have hold : ∀ {t rs}, .admitted t rs ∈ log ++ [.granted ticket] → .admitted t rs ∈ log := by
    intro t rs ht
    simpa using ht
  intro pre post later hsplit earlier rs rs' hearlier hlater hlt hconflict
  rcases List.concat_eq_append_cons hsplit with ⟨post', rfl, rfl⟩ | ⟨rfl, hentry, rfl⟩
  · obtain ⟨hrel, hnot⟩ := h.order pre post' later rfl earlier rs rs' (hold hearlier)
      (hold hlater) hlt hconflict
    refine ⟨hrel, fun hmem => ?_⟩
    rcases mem_append.mp hmem with hmem | hmem
    · exact hnot hmem
    · -- what was released has no claim to be granted
      rw [mem_singleton, ArbiterEntry.granted.injEq] at hmem
      exact (h.released earlier (mem_append_left _ hrel)).2 _ hclaim hmem.symm
  · rw [ArbiterEntry.granted.injEq] at hentry
    subst hentry
    refine ⟨?_, not_mem_nil⟩
    rcases h.settled earlier rs (hold hearlier) with ⟨c, hc⟩ | hrel
    · -- its claim would have blocked the grant
      have hcres : c.resources = rs := h.functional earlier _ _ (h.admitted _ hc) (hold hearlier)
      have hlres : resources = rs' := by
        rw [← hresources]
        exact h.functional later _ _ (h.admitted _ hclaim) (hold hlater)
      have hno := not_conflicting_of_not_blocks (hfree _ hc) (Nat.ne_of_lt hlt) (.inr hlt)
      rw [conflicting_comm, hcres, hlres, hconflict] at hno
      cases hno
    · exact hrel

/-- **A grant keeps the running claims apart and the order of tickets.** -/
theorem grant (hacquire : acquire sys ticket resources state = some (.ok next)) {claim : Claim π}
    (hclaim : (ticket, claim) ∈ state.claims) (hresources : claim.resources = resources) :
    ClaimsInvariant sys capacity next (log ++ [.granted ticket]) := by
  obtain ⟨-, hfree, rfl⟩ := of_acquire hacquire
  have hold : ∀ {t rs}, .admitted t rs ∈ log ++ [.granted ticket] → .admitted t rs ∈ log := by
    intro t rs ht
    simpa using ht
  have hkeys : (markRunning ticket state.claims).map Prod.fst = state.claims.map Prod.fst := by
    rw [markRunning, List.map_map]
    refine map_congr_left fun entry _ => ?_
    simp only [Function.comp_apply]
    split <;> rfl
  refine ⟨?_, ?_, ?_, ?_, ?_, ?_, ?_, ?_, ?_, ?_, ?_⟩
  · unfold KeyedList.DistinctKeys
    rw [hkeys]
    exact h.keys
  · intro entry hentry
    obtain ⟨old, hmem, hkey, -, -⟩ := mem_markRunning.mp hentry
    rw [hkey]
    exact h.fresh old hmem
  · simpa [markRunning] using h.capacity
  · exact fun a ha b hb => h.exclusive_of_grant hfree hclaim hresources ha hb
  · intro entry hentry
    obtain ⟨old, hmem, hkey, hres, -⟩ := mem_markRunning.mp hentry
    rw [hkey, hres]
    exact mem_append_left _ (h.admitted old hmem)
  · exact fun t rs ht => h.tickets t rs (hold ht)
  · exact fun t rs rs' ht ht' => h.functional t rs rs' (hold ht) (hold ht')
  · intro t ht
    rcases mem_append.mp ht with ht | ht
    · exact h.granted t ht
    · rw [mem_singleton, ArbiterEntry.granted.injEq] at ht
      rw [ht]
      exact h.fresh _ hclaim
  · intro t rs ht
    rcases h.settled t rs (hold ht) with ⟨c, hc⟩ | hrel
    · exact .inl ⟨{ c with running := c.running || decide (t = ticket) },
        mem_markRunning.mpr ⟨(t, c), hc, rfl, rfl, rfl⟩⟩
    · exact .inr (mem_append_left _ hrel)
  · intro t ht
    obtain ⟨hlt, hnone⟩ := h.released t (by simpa using ht)
    refine ⟨hlt, fun entry hentry => ?_⟩
    obtain ⟨old, hmem, hkey, -, -⟩ := mem_markRunning.mp hentry
    rw [hkey]
    exact hnone old hmem
  · exact h.order_of_grant hfree hclaim hresources

/-- **A release takes the claim away for good.** -/
theorem release (hlt : ticket < state.nextTicket) :
    ClaimsInvariant sys capacity (releaseTicket ticket state) (log ++ [.released ticket]) := by
  have hold : ∀ {t rs}, .admitted t rs ∈ log ++ [.released ticket] → .admitted t rs ∈ log := by
    intro t rs ht
    simpa using ht
  have hmem : ∀ {entry}, entry ∈ (releaseTicket ticket state).claims →
      entry ∈ state.claims ∧ entry.1 ≠ ticket := fun hentry => mem_delete.mp hentry
  refine ⟨h.keys.delete ticket, ?_, ?_, ?_, ?_, ?_, ?_, ?_, ?_, ?_, ?_⟩
  · exact fun entry hentry => h.fresh entry (hmem hentry).1
  · have hle := length_filter_le (fun a : ℕ × Claim π => a.1 ≠ ticket) state.claims
    have hcap := h.capacity
    simp only [releaseTicket, KeyedList.delete]
    omega
  · exact fun a ha b hb => h.exclusive a (hmem ha).1 b (hmem hb).1
  · exact fun entry hentry => mem_append_left _ (h.admitted entry (hmem hentry).1)
  · exact fun t rs ht => h.tickets t rs (hold ht)
  · exact fun t rs rs' ht ht' => h.functional t rs rs' (hold ht) (hold ht')
  · exact fun t ht => h.granted t (by simpa using ht)
  · intro t rs ht
    rcases h.settled t rs (hold ht) with ⟨c, hc⟩ | hrel
    · by_cases hsame : t = ticket
      · exact .inr (by simp [hsame])
      · exact .inl ⟨c, mem_delete.mpr ⟨hc, hsame⟩⟩
    · exact .inr (mem_append_left _ hrel)
  · intro t ht
    rcases mem_append.mp ht with ht | ht
    · obtain ⟨hlt, hnone⟩ := h.released t ht
      exact ⟨hlt, fun entry hentry => hnone entry (hmem hentry).1⟩
    · rw [mem_singleton, ArbiterEntry.released.injEq] at ht
      subst ht
      exact ⟨hlt, fun entry hentry => (hmem hentry).2⟩
  · exact h.order.append (by simp) (by simp)

theorem close :
    ClaimsInvariant sys capacity (closeToolResourceArbiter state) log :=
  ⟨h.keys, h.fresh, h.capacity, h.exclusive, h.admitted, h.tickets, h.functional, h.granted,
    h.settled, h.released, h.order⟩

end

end ClaimsInvariant

namespace LeasesInvariant

variable {state next : ArbiterState π} {calls : List (LeaseCall π)} {index ticket : ℕ}
  {resources : List (ToolResourceClaim π)} {phase : LeasePhase}

omit [DecidableEq π]

/-- Where a ticket is after a call was updated that got no new ticket. -/
theorem ticket_set {old new : LeaseCall π} (hcall : calls[index]? = some old)
    (hold : ∀ t, new.phase.ticket = some t → old.phase.ticket = some t) {j t : ℕ}
    {call : LeaseCall π} (hget : (calls.set index new)[j]? = some call)
    (ht : call.phase.ticket = some t) :
    ∃ before, calls[j]? = some before ∧ before.phase.ticket = some t := by
  rcases List.getElem?_set_cases hget with ⟨-, hj⟩ | ⟨rfl, rfl⟩
  · exact ⟨call, hj, ht⟩
  · exact ⟨old, hcall, hold t ht⟩

/-- A ticket that the updated call keeps, or that is another's, stays. -/
theorem owned_set {old new : LeaseCall π} (hcall : calls[index]? = some old) {t : ℕ}
    (hkeep : old.phase.ticket = some t → new.phase.ticket = some t)
    (h : ∃ (j : ℕ) (call : LeaseCall π), calls[j]? = some call ∧ call.phase.ticket = some t) :
    ∃ (j : ℕ) (call : LeaseCall π), (calls.set index new)[j]? = some call ∧
      call.phase.ticket = some t := by
  obtain ⟨j, call, hj, ht⟩ := h
  by_cases hsame : index = j
  · subst hsame
    rw [hcall, some.injEq] at hj
    subst hj
    exact ⟨index, new, List.getElem?_set_self (List.getElem?_eq_some_iff.mp hcall).1, hkeep ht⟩
  · exact ⟨j, call, by rw [List.getElem?_set_ne hsame]; exact hj, ht⟩

section

variable (h : LeasesInvariant state calls)
include h

/-- A call changes its phase; it gets no new ticket and keeps those of the claims. -/
theorem set {old new : LeaseCall π}
    (hcall : calls[index]? = some old)
    (hold : ∀ t, new.phase.ticket = some t → old.phase.ticket = some t)
    (hclaims : ∀ entry ∈ next.claims, ∃ entry' ∈ state.claims, entry.1 = entry'.1)
    (hkeep : ∀ entry ∈ next.claims, old.phase.ticket = some entry.1 →
      new.phase.ticket = some entry.1)
    (hothers : ∀ (t : ℕ) (claim : Claim π), (t, claim) ∈ state.claims →
      old.phase.ticket ≠ some t → (t, claim) ∈ next.claims)
    (hmine : ∀ t, new.phase.ticket = some t → ∃ claim, (t, claim) ∈ next.claims ∧
      claim.resources = new.resources ∧ (claim.running = true ↔ new.phase = .holding t))
    (hclosed : state.closed = true → next.closed = true)
    (hrefused : ∀ t, new.phase = .refused t → next.closed = true) :
    LeasesInvariant next (calls.set index new) := by
  refine ⟨?_, ?_, ?_, ?_⟩
  · intro j call t hget ht
    rcases List.getElem?_set_cases hget with ⟨hne, hj⟩ | ⟨-, rfl⟩
    · obtain ⟨claim, hclaim, hrest⟩ := h.held j call t hj ht
      refine ⟨claim, hothers t claim hclaim fun hold' => ?_, hrest⟩
      exact hne (h.distinct index j old call t hcall hj hold' ht)
    · exact hmine t ht
  · intro i j call call' t hi hj ht ht'
    obtain ⟨before, hbefore, hbt⟩ := ticket_set hcall hold hi ht
    obtain ⟨before', hbefore', hbt'⟩ := ticket_set hcall hold hj ht'
    exact h.distinct i j before before' t hbefore hbefore' hbt hbt'
  · intro entry hentry
    obtain ⟨entry', hentry', hkey⟩ := hclaims entry hentry
    refine owned_set hcall (hkeep entry hentry) ?_
    rw [hkey]
    exact h.owned entry' hentry'
  · intro j call t hget ht
    rcases List.getElem?_set_cases hget with ⟨-, hj⟩ | ⟨-, rfl⟩
    · exact hclosed (h.refused j call t hj ht)
    · exact hrefused t ht

/-- A request is refused at once. -/
theorem reject (hcall : calls[index]? = some { resources, phase := .entering }) :
    LeasesInvariant state (calls.set index { resources, phase := .rejected }) :=
  h.set hcall (by simp [LeasePhase.ticket]) (fun entry hentry => ⟨entry, hentry, rfl⟩)
    (by simp [LeasePhase.ticket]) (fun _ _ hclaim _ => hclaim) (by simp [LeasePhase.ticket]) id
    (by simp)

theorem call (resources : List (ToolResourceClaim π)) :
    LeasesInvariant state (calls ++ [{ resources, phase := .entering }]) := by
  refine ⟨?_, ?_, ?_, ?_⟩
  · intro j call t hget ht
    rcases List.getElem?_concat_cases hget with hj | ⟨-, rfl⟩
    · exact h.held j call t hj ht
    · cases ht
  · intro i j call call' t hget hget' ht ht'
    rcases List.getElem?_concat_cases hget with hi | ⟨-, rfl⟩
    · rcases List.getElem?_concat_cases hget' with hj | ⟨-, rfl⟩
      · exact h.distinct i j call call' t hi hj ht ht'
      · cases ht'
    · cases ht
  · intro entry hentry
    obtain ⟨j, call, hj, ht⟩ := h.owned entry hentry
    refine ⟨j, call, ?_, ht⟩
    rw [List.getElem?_append_left (List.getElem?_eq_some_iff.mp hj).1]
    exact hj
  · intro j call t hget ht
    rcases List.getElem?_concat_cases hget with hj | ⟨-, rfl⟩
    · exact h.refused j call t hj ht
    · cases ht

/-- A call gets the new claim. -/
theorem admitTicket (hcall : calls[index]? = some { resources, phase := .entering })
    (hnew : ∀ entry ∈ state.claims, entry.1 ≠ ticket) (hclosed : next.closed = state.closed)
    (hclaims : next.claims = KeyedList.insert Prod.fst (ticket, { resources, running := false })
      state.claims) :
    LeasesInvariant next (calls.set index { resources, phase := .waiting ticket }) := by
  have hmem (entry : ℕ × Claim π) := mem_insert_of_new (b := entry)
    (a := (ticket, ({ resources, running := false } : Claim π))) hnew
  have hother : ∀ (j : ℕ) (call : LeaseCall π), calls[j]? = some call →
      call.phase.ticket ≠ some ticket := by
    intro j call hj ht
    obtain ⟨claim, hclaim, -⟩ := h.held j call ticket hj ht
    exact hnew _ hclaim rfl
  refine ⟨?_, ?_, ?_, ?_⟩
  · intro j call t hget ht
    rw [hclaims]
    rcases List.getElem?_set_cases hget with ⟨-, hj⟩ | ⟨-, rfl⟩
    · obtain ⟨claim, hclaim, hrest⟩ := h.held j call t hj ht
      exact ⟨claim, (hmem _).mpr (.inr hclaim), hrest⟩
    · rw [← some.inj ht]
      exact ⟨_, (hmem _).mpr (.inl rfl), rfl, by simp⟩
  · intro i j call call' t hget hget' ht ht'
    rcases List.getElem?_set_cases hget with ⟨-, hi⟩ | ⟨hi, rfl⟩
    · rcases List.getElem?_set_cases hget' with ⟨-, hj⟩ | ⟨-, rfl⟩
      · exact h.distinct i j call call' t hi hj ht ht'
      · exact absurd (ht.trans ht'.symm) (hother i call hi)
    · rcases List.getElem?_set_cases hget' with ⟨-, hj⟩ | ⟨hj, rfl⟩
      · exact absurd (ht'.trans ht.symm) (hother j call' hj)
      · exact hi.symm.trans hj
  · intro entry hentry
    rw [hclaims] at hentry
    rcases (hmem entry).mp hentry with rfl | hold
    · exact ⟨index, _, List.getElem?_set_self (List.getElem?_eq_some_iff.mp hcall).1, rfl⟩
    · exact owned_set hcall (by simp [LeasePhase.ticket]) (h.owned entry hold)
  · intro j call t hget ht
    rw [hclosed]
    rcases List.getElem?_set_cases hget with ⟨-, hj⟩ | ⟨-, rfl⟩
    · exact h.refused j call t hj ht
    · cases ht

/-- A waiting call learns that the arbiter is closed. -/
theorem refuse (hcall : calls[index]? = some { resources, phase := .waiting ticket })
    (hclosed : state.closed = true) :
    LeasesInvariant state (calls.set index { resources, phase := .refused ticket }) := by
  refine h.set hcall (fun t ht => ht) (fun entry hentry => ⟨entry, hentry, rfl⟩)
    (fun _ _ ht => ht) (fun _ _ hclaim _ => hclaim) ?_ id (fun _ _ => hclosed)
  intro t ht
  obtain ⟨claim, hclaim, hres, hrun⟩ := h.held index _ t hcall ht
  exact ⟨claim, hclaim, hres, by simpa using hrun⟩

/-- A waiting call runs. -/
theorem grant (hcall : calls[index]? = some { resources, phase := .waiting ticket })
    (hclosed : next.closed = state.closed)
    (hclaims : next.claims = markRunning ticket state.claims) :
    LeasesInvariant next (calls.set index { resources, phase := .holding ticket }) := by
  refine h.set hcall (fun t ht => ht) ?_ (fun _ _ ht => ht) ?_ ?_ (fun hc => hclosed.trans hc)
    (by simp)
  · intro entry hentry
    rw [hclaims] at hentry
    obtain ⟨old, hold, hkey, -, -⟩ := ClaimsInvariant.mem_markRunning.mp hentry
    exact ⟨old, hold, hkey⟩
  · intro t claim hclaim hother
    have hne : t ≠ ticket := fun heq => hother (by rw [heq]; rfl)
    rw [hclaims]
    exact ClaimsInvariant.mem_markRunning.mpr ⟨(t, claim), hclaim, rfl, rfl, by simp [hne]⟩
  · intro t ht
    obtain ⟨claim, hclaim, hres, -⟩ := h.held index _ t hcall ht
    have hsame : ticket = t := some.inj ht
    subst hsame
    rw [hclaims]
    exact ⟨{ claim with running := true }, ClaimsInvariant.mem_markRunning.mpr
      ⟨(ticket, claim), hclaim, rfl, rfl, by simp⟩, hres, by simp⟩

/-- A call gives its claim back. -/
theorem release {call : LeaseCall π}
    (hcall : calls[index]? = some call) (hticket : call.phase.ticket = some ticket) :
    LeasesInvariant (releaseTicket ticket state)
      (calls.set index { call with phase := .done }) := by
  refine h.set hcall (by simp [LeasePhase.ticket]) ?_ ?_ ?_ (by simp [LeasePhase.ticket]) id
    (by simp)
  · exact fun entry hentry => ⟨entry, (mem_delete.mp hentry).1, rfl⟩
  · intro entry hentry ht
    rw [hticket, some.injEq] at ht
    exact absurd ht.symm (mem_delete.mp hentry).2
  · intro t claim hclaim hother
    refine mem_delete.mpr ⟨hclaim, fun heq => hother ?_⟩
    rw [hticket, ← heq]

theorem close :
    LeasesInvariant (closeToolResourceArbiter state) calls :=
  ⟨h.held, h.distinct, h.owned, fun _ _ _ _ _ => rfl⟩

end

end LeasesInvariant

/-! ### Every reachable arbiter -/

section

variable {capacity : ℤ} {w w' : ArbiterWorld π}

/-- What every move keeps. -/
structure ArbiterInvariant (capacity : ℤ) (w : ArbiterWorld π) : Prop where
  claims : ClaimsInvariant sys capacity w.state w.log
  leases : LeasesInvariant w.state w.calls

variable {sys}

theorem ArbiterInvariant.initial {state : ArbiterState π}
    (h : newToolResourceArbiter capacity = some state) :
    ArbiterInvariant sys capacity (ArbiterWorld.initial state) := by
  have hclaims : ClaimsInvariant sys capacity state [] := ClaimsInvariant.initial h
  refine ⟨hclaims, ?_⟩
  have hnone : ∀ entry ∈ state.claims, False := fun entry hentry => by
    simpa using hclaims.admitted entry hentry
  exact ⟨by simp [ArbiterWorld.initial], by simp [ArbiterWorld.initial],
    fun entry hentry => (hnone entry hentry).elim, by simp [ArbiterWorld.initial]⟩

theorem ArbiterInvariant.step (h : ArbiterInvariant sys capacity w) {e : ArbiterEvent π}
    (hst : w.step sys capacity e = some w') : ArbiterInvariant sys capacity w' := by
  cases e with
  | call resources =>
    simp only [ArbiterWorld.step, some.injEq] at hst
    subst hst
    exact ⟨h.claims, h.leases.call resources⟩
  | admitCall index =>
    simp only [ArbiterWorld.step] at hst
    split at hst
    · next resources hcall =>
      split at hst
      · cases hst
        exact ⟨h.claims, h.leases.reject hcall⟩
      · next ticket state hadmission =>
        cases hst
        obtain ⟨hclaims, hticket, hclosed, hinsert⟩ := h.claims.admitTicket hadmission
        refine ⟨hclaims, h.leases.admitTicket hcall (fun entry hentry => ?_) hclosed hinsert⟩
        have := h.claims.fresh entry hentry
        omega
    · cases hst
  | acquire index =>
    simp only [ArbiterWorld.step] at hst
    split at hst
    · next resources ticket hcall =>
      rw [map_eq_some_iff] at hst
      obtain ⟨result, hacquire, hres⟩ := hst
      cases result with
      | error e =>
        simp only at hres
        subst hres
        refine ⟨h.claims, h.leases.refuse hcall ?_⟩
        -- only a closed arbiter answers with an error
        unfold acquire at hacquire
        split at hacquire
        · assumption
        · split at hacquire <;> simp at hacquire
      | ok state =>
        simp only at hres
        subst hres
        obtain ⟨claim, hclaim, hclaimres, -⟩ := h.leases.held index _ ticket hcall rfl
        obtain ⟨-, -, hnext⟩ := ClaimsInvariant.of_acquire hacquire
        refine ⟨h.claims.grant hacquire hclaim hclaimres, h.leases.grant hcall ?_ ?_⟩
        · rw [hnext]
        · rw [hnext]
    · cases hst
  | release index =>
    simp only [ArbiterWorld.step, bind_eq_some_iff, map_eq_some_iff] at hst
    obtain ⟨call, hcall, ticket, hticket, rfl⟩ := hst
    obtain ⟨claim, hclaim, -⟩ := h.leases.held index call ticket hcall hticket
    exact ⟨h.claims.release (h.claims.fresh _ hclaim), h.leases.release hcall hticket⟩
  | close =>
    simp only [ArbiterWorld.step, some.injEq] at hst
    subst hst
    exact ⟨h.claims.close, h.leases.close⟩

/-- While nothing runs, a ticket with no smaller one is not blocked. -/
theorem ArbiterInvariant.acquire_smallest (h : ArbiterInvariant sys capacity w)
    (hopen : w.state.closed = false) (hidle : ∀ entry ∈ w.state.claims, entry.2.running = false)
    {ticket : ℕ} {claim : Claim π} (hclaim : (ticket, claim) ∈ w.state.claims)
    (hsmallest : ∀ entry ∈ w.state.claims, ticket ≤ entry.1) :
    ∃ index w', w.step sys capacity (.acquire index) = some w' ∧
      w'.log = w.log ++ [.granted ticket] := by
  obtain ⟨index, call, hcall, hticket⟩ := h.leases.owned _ hclaim
  obtain ⟨claim', hclaim', hres, hrun⟩ := h.leases.held index call ticket hcall hticket
  have hwaiting : call.phase = .waiting ticket := by
    cases hphase : call.phase with
    | waiting t =>
      rw [hphase] at hticket
      rw [some.inj hticket]
    | refused t =>
      have := h.leases.refused index call t hcall hphase
      rw [hopen] at this
      cases this
    | holding t =>
      rw [hphase] at hticket hrun
      have hholding : claim'.running = true := hrun.mpr (by rw [some.inj hticket])
      rw [hidle _ hclaim'] at hholding
      cases hholding
    | entering | rejected | done => rw [hphase] at hticket; cases hticket
  have hfree : w.state.claims.any (blocks sys ticket call.resources) = false := by
    rw [List.any_eq_false]
    intro entry hentry
    have hnotrunning := hidle entry hentry
    have hlater := hsmallest entry hentry
    simp [blocks, hnotrunning, Nat.not_lt.mpr hlater]
  have hacquire : acquire sys ticket call.resources w.state
      = some (.ok { w.state with claims := markRunning ticket w.state.claims }) := by
    rw [acquire, ClaimsInvariant.foldr_blocks, hfree, if_neg (by simp [hopen]),
      if_neg Bool.false_ne_true]
  obtain ⟨resources, phase⟩ := call
  simp only at hwaiting hacquire
  subst hwaiting
  refine ⟨index, { state := { w.state with claims := markRunning ticket w.state.claims }
                   calls := w.calls.set index { resources, phase := .holding ticket }
                   log := w.log ++ [.granted ticket] }, ?_, rfl⟩
  simp [ArbiterWorld.step, hcall, hacquire]

/-- **The resource arbiter is safe.**  In every interleaving of admissions, grants, releases and a
close: the running claims do not conflict; a grant comes only after every conflicting request with
a smaller ticket was released, and none of these is granted afterwards; there are at most
`capacity` claims; and while the arbiter is open, somebody waits and nobody runs, the waiter with
the smallest ticket can acquire. -/
theorem resource_arbiter_safe {state : ArbiterState π}
    (hnew : newToolResourceArbiter capacity = some state)
    (h : Reachable (ArbiterWorld.step sys capacity) (ArbiterWorld.initial state) w) :
    (∀ a ∈ w.state.claims, ∀ b ∈ w.state.claims, a.1 ≠ b.1 → a.2.running = true →
      b.2.running = true → conflicting sys a.2.resources b.2.resources = false) ∧
    GrantedInOrder sys w.log ∧
    (w.state.claims.length : ℤ) ≤ capacity ∧
    (w.state.closed = false → w.state.claims ≠ [] →
      (∀ entry ∈ w.state.claims, entry.2.running = false) →
      ∃ ticket claim, (ticket, claim) ∈ w.state.claims ∧
        (∀ entry ∈ w.state.claims, ticket ≤ entry.1) ∧
        ∃ index w', w.step sys capacity (.acquire index) = some w' ∧
          w'.log = w.log ++ [.granted ticket]) := by
  have hinv : ArbiterInvariant sys capacity w :=
    h.invariant (ArbiterInvariant.initial hnew) fun _ _ _ hi _ hst => hi.step hst
  refine ⟨hinv.claims.exclusive, hinv.claims.order, hinv.claims.capacity, ?_⟩
  intro hopen hne hidle
  have hwaiter : ∃ ticket claim, (ticket, claim) ∈ w.state.claims := by
    obtain ⟨entry, rest, hcons⟩ := exists_cons_of_ne_nil hne
    exact ⟨entry.1, entry.2, by rw [hcons]; exact mem_cons_self⟩
  classical
  obtain ⟨claim, hclaim⟩ := Nat.find_spec hwaiter
  have hsmallest : ∀ entry ∈ w.state.claims, Nat.find hwaiter ≤ entry.1 :=
    fun entry hentry => Nat.find_min' hwaiter ⟨entry.2, hentry⟩
  exact ⟨_, claim, hclaim, hsmallest, hinv.acquire_smallest hopen hidle hclaim hsmallest⟩

/-- **No claim leaks**: each is that of the one call that still has to release it, and runs while
this call holds it; once no call has anything to release, none is left. -/
theorem claims_owned {state : ArbiterState π} (hnew : newToolResourceArbiter capacity = some state)
    (h : Reachable (ArbiterWorld.step sys capacity) (ArbiterWorld.initial state) w) :
    (∀ ticket claim, (ticket, claim) ∈ w.state.claims → ∃! index : ℕ, ∃ call : LeaseCall π,
      w.calls[index]? = some call ∧ call.phase.ticket = some ticket ∧
      call.resources = claim.resources ∧ (claim.running = true ↔ call.phase = .holding ticket)) ∧
    ((∀ call ∈ w.calls, call.phase.ticket = none) → w.state.claims = []) := by
  have hinv : ArbiterInvariant sys capacity w :=
    h.invariant (ArbiterInvariant.initial hnew) fun _ _ _ hi _ hst => hi.step hst
  refine ⟨fun ticket claim hentry => ?_,
    fun hdone => eq_nil_iff_forall_not_mem.mpr fun entry hentry => ?_⟩
  · obtain ⟨index, call, hcall, hticket⟩ := hinv.leases.owned _ hentry
    obtain ⟨held, hheld, hresources, hrunning⟩ := hinv.leases.held index call _ hcall hticket
    cases hinv.claims.keys.eq_of_mem hheld hentry rfl
    refine ⟨index, ⟨call, hcall, hticket, hresources.symm, hrunning⟩, fun other hother => ?_⟩
    obtain ⟨call', hcall', hticket', -⟩ := hother
    exact hinv.leases.distinct other index call' call _ hcall' hcall hticket' hticket
  · obtain ⟨index, call, hcall, hticket⟩ := hinv.leases.owned entry hentry
    cases (hdone call (mem_of_getElem? hcall)).symm.trans hticket

end

/-- Paths without structure, each its own normal form. -/
def flatPaths : PathSystem ℕ where
  normal := id
  isAbsolute := fun _ => true
  makeRelative := fun _ path => path
  splitDirectories := fun path => [path]
  parent := 0

/-- A writer, a second writer of the same path behind it, and an unrelated reader that overtakes the
second; the first is then cancelled while it runs. -/
def arbiterRun : List (ArbiterEvent ℕ) :=
  [.call [⟨.write, .path 1⟩], .call [⟨.write, .path 1⟩], .call [⟨.read, .path 2⟩], .admitCall 0,
    .admitCall 1, .admitCall 2, .acquire 0, .acquire 2, .release 0, .acquire 1]

theorem resource_arbiter_safe_in_arbiterRun :
    ∃ (state : ArbiterState ℕ) (w : ArbiterWorld ℕ), newToolResourceArbiter 8 = some state ∧
      Reachable (ArbiterWorld.step flatPaths 8) (ArbiterWorld.initial state) w ∧
      (w.state.claims.filter (·.2.running)).length = 2 ∧ (w.state.claims.length : ℤ) ≤ 8 := by
  have hrun : (Machine.run (ArbiterWorld.step flatPaths 8)
      (ArbiterWorld.initial { closed := false, nextTicket := 0, claims := [] }) arbiterRun).any
        (fun w => (w.state.claims.filter (·.2.running)).length == 2) = true := by
    decide +kernel
  obtain ⟨w, hreach, hrunning⟩ := exists_reachable_of_run hrun
  have hnew : newToolResourceArbiter (π := ℕ) 8
      = some { closed := false, nextTicket := 0, claims := [] } := rfl
  obtain ⟨-, -, hcapacity, -⟩ := resource_arbiter_safe hnew hreach
  exact ⟨_, w, hnew, hreach, by simpa using hrunning, hcapacity⟩

theorem claims_owned_in_arbiterRun :
    ∃ (state : ArbiterState ℕ) (w : ArbiterWorld ℕ), newToolResourceArbiter 8 = some state ∧
      Reachable (ArbiterWorld.step flatPaths 8) (ArbiterWorld.initial state) w ∧
      w.state.claims.length = 2 ∧
      ((∀ call ∈ w.calls, call.phase.ticket = none) → w.state.claims = []) := by
  have hrun : (Machine.run (ArbiterWorld.step flatPaths 8) (.initial ⟨false, 0, []⟩)
      arbiterRun).any (·.state.claims.length == 2) = true := by
    decide +kernel
  obtain ⟨w, hreach, hclaims⟩ := exists_reachable_of_run hrun
  exact ⟨_, w, rfl, hreach, beq_iff_eq.mp hclaims, (claims_owned rfl hreach).2⟩

end HaskellAgent
