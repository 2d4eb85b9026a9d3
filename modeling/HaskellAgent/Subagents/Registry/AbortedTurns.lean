import HaskellAgent.Subagents.Registry.Interruption

/-!
# Aborted root turns

`abortRootTurn` marks a root turn as aborted, discards its queued work and interrupts the records
that work for it.  Work of an aborted turn is refused wherever a call enters, and dropped where a
run returns what it did not read.  A completion is the exception: it carries the turn of the child
into the mail of its parent without asking.

A turn is clean while it is neither marked nor returned from.  The queued works of registered
records are clean, and so is every work that the holder of the lock has checked.
-/

open List Option Function Machine

namespace HaskellAgent

open Registry

/-! ### Turns -/

section Turns

variable (aborted returned : List RootTurnId)

/-- Neither is the turn marked as aborted, nor has its abort returned. -/
def Clean (turn : Option RootTurnId) : Prop := ∀ t ∈ turn, t ∉ aborted ∧ t ∉ returned

/-- If its abort has returned, the turn is still marked. -/
def Known (turn : Option RootTurnId) : Prop := ∀ t ∈ turn, t ∈ returned → t ∈ aborted

/-- The queued work of a record is clean, and what its run has open can be recognised. -/
structure MailOk (mail : Mail Unit) : Prop where
  mailbox : ∀ work ∈ mail.recordMailbox, Clean aborted returned work.workRootTurnId
  steering : ∀ work ∈ mail.unacknowledged, Known aborted returned work.workRootTurnId

end Turns

section Turns

variable {aborted returned : List RootTurnId} {turn : Option RootTurnId}

theorem Clean.none : Clean aborted returned none := fun _ h => nomatch h

theorem Clean.known (h : Clean aborted returned turn) : Known aborted returned turn :=
  fun t ht hreturned => absurd hreturned (h t ht).2

/-- A check against the marked turns is enough for a known one. -/
theorem Known.clean (h : Known aborted returned turn) (hfree : ∀ t ∈ turn, t ∉ aborted) :
    Clean aborted returned turn :=
  fun t ht => ⟨hfree t ht, fun hreturned => hfree t ht (h t ht hreturned)⟩

theorem Registry.not_aborted {reg : Registry} (h : reg.isRootTurnAborted turn = false) :
    ∀ t ∈ turn, t ∉ reg.registryAbortedRootTurns := by
  rintro t ⟨⟩
  simpa [isRootTurnAborted] using h

namespace MailOk

variable {mail : Mail Unit} {work : Work}

theorem empty : MailOk aborted returned { recordMailbox := [], recordSteering := none } where
  mailbox := fun _ h => nomatch h
  steering := fun _ h => nomatch h

/-- The queue of the record becomes another clean one. -/
theorem setMailbox (h : MailOk aborted returned mail) {mailbox : List Work}
    (hmailbox : ∀ work ∈ mailbox, Clean aborted returned work.workRootTurnId) :
    MailOk aborted returned { mail with recordMailbox := mailbox } where
  mailbox := hmailbox
  steering := h.steering

theorem enqueue (h : MailOk aborted returned mail)
    (hwork : Clean aborted returned work.workRootTurnId) :
    MailOk aborted returned (mail.enqueueSubagentWork work) := by
  have hwaits : MailOk aborted returned
      { mail with recordMailbox := mail.recordMailbox ++ [work] } := by
    refine h.setMailbox fun other hother => ?_
    rcases mem_append.mp hother with hother | hother
    · exact h.mailbox other hother
    · rw [mem_singleton.mp hother]
      exact hwork
  unfold Mail.enqueueSubagentWork
  split
  · exact hwaits
  · rename_i steering hsteering
    split
    · exact hwaits
    · refine ⟨h.mailbox, fun other hother => ?_⟩
      have hopen : mail.recordSteering = some steering := by
        split at hsteering
        · exact hsteering
        · cases hsteering
      rcases mem_append.mp hother with hother | hother
      · exact h.steering other (by rwa [Mail.unacknowledged, hopen])
      · rw [mem_singleton.mp hother]
        exact hwork.known

theorem enqueueAll (works : List Work) (h : MailOk aborted returned mail)
    (hworks : ∀ work ∈ works, Clean aborted returned work.workRootTurnId) :
    MailOk aborted returned (works.foldl Mail.enqueueSubagentWork mail) := by
  induction works generalizing mail with
  | nil => exact h
  | cons work rest ih =>
    exact ih (h.enqueue (hworks work mem_cons_self))
      fun other hother => hworks other (mem_cons_of_mem _ hother)

section

variable (h : MailOk aborted returned mail)
include h

theorem acquire {inputs : InputQueueState TurnInput}
    {opened : Mail Unit} (hacquire : mail.acquire inputs = some opened) :
    MailOk aborted returned opened := by
  unfold Mail.acquire at hacquire
  split at hacquire
  · cases hacquire
  · cases hacquire
    exact enqueueAll _ ⟨fun _ h => (nomatch h), fun _ h => (nomatch h)⟩ h.mailbox

/-- What a run returns is checked against the marked turns. -/
theorem release (closed : Bool) :
    MailOk aborted returned (mail.release closed aborted) where
  steering := fun _ h => nomatch h
  mailbox := by
    intro work hwork
    unfold Mail.release at hwork
    cases closed with
    | true => exact h.mailbox work hwork
    | false =>
      rcases mem_append.mp hwork with hwork | hwork
      · obtain ⟨hwork, hretain⟩ := mem_filter.mp hwork
        refine (h.steering work hwork).clean fun t ht => ?_
        rw [Mail.retain, show work.workRootTurnId = some t from ht] at hretain
        simpa using hretain
      · exact h.mailbox work hwork

theorem steer {steering next : SubagentSteering Unit}
    (hsteering : mail.recordSteering = some steering)
    (hwork : ∀ work ∈ next.steeringWork, work ∈ steering.steeringWork) :
    MailOk aborted returned { mail with recordSteering := some next } where
  mailbox := h.mailbox
  steering := by
    intro work hnext
    refine h.steering work ?_
    rw [Mail.unacknowledged, hsteering]
    exact hwork work hnext

/-- The queue is purged of a turn that is marked. -/
theorem discard (t : RootTurnId) :
    MailOk (t :: aborted) returned (discardQueuedWork t mail) where
  mailbox := by
    intro work hwork other hother
    obtain ⟨hwork, hne⟩ := mem_filter.mp hwork
    have hclean := h.mailbox work hwork other hother
    refine ⟨?_, hclean.2⟩
    rintro (_ | ⟨_, hmem⟩)
    · rw [show work.workRootTurnId = some t from hother] at hne
      simp at hne
    · exact hclean.1 hmem
  steering := fun work hwork other hother hreturned =>
    mem_cons_of_mem _ (h.steering work hwork other hother hreturned)

/-- The abort of a marked turn returns. -/
theorem returns {t : RootTurnId} (ht : t ∈ aborted) :
    MailOk aborted (t :: returned) mail where
  mailbox := by
    intro work hwork other hother
    have hclean := h.mailbox work hwork other hother
    refine ⟨hclean.1, ?_⟩
    rintro (_ | ⟨_, hmem⟩)
    · exact hclean.1 ht
    · exact hclean.2 hmem
  steering := by
    intro work hwork other hother hmem
    rcases mem_cons.mp hmem with rfl | hmem
    · exact ht
    · exact h.steering work hwork other hother hmem

end

end MailOk

end Turns

/-! ### What the transactions do to turns -/

namespace Registry

/-- The mail of registered records is in order, and no record holds a slot for a turn whose abort
has returned. -/
structure TurnSafe (returned : List RootTurnId) (reg : Registry) : Prop where
  mail : ∀ r ∈ reg.registryAgents,
    MailOk reg.registryAbortedRootTurns returned (reg.recordMail r)
  slots : ∀ r, phaseHoldsSlot (reg.recordPhase r) →
    ∀ t ∈ phaseRootTurnId (reg.recordPhase r), t ∉ returned

/-- What a move other than an abort or a reset does: a slot stays with its turn, or goes to a clean
one. -/
structure TurnMove (returned : List RootTurnId) (reg reg' : Registry) : Prop where
  aborted : reg'.registryAbortedRootTurns = reg.registryAbortedRootTurns
  mail : ∀ r ∈ reg'.registryAgents,
    MailOk reg.registryAbortedRootTurns returned (reg'.recordMail r)
  slots : ∀ r, phaseHoldsSlot (reg'.recordPhase r) →
    phaseHoldsSlot (reg.recordPhase r) ∧
        phaseRootTurnId (reg'.recordPhase r) = phaseRootTurnId (reg.recordPhase r) ∨
      Clean reg.registryAbortedRootTurns returned (phaseRootTurnId (reg'.recordPhase r))

variable {returned : List RootTurnId} {reg reg' : Registry} {record : SubagentRecord}

theorem TurnMove.safe (hmove : TurnMove returned reg reg') (h : TurnSafe returned reg) :
    TurnSafe returned reg' where
  mail := by
    rw [hmove.aborted]
    exact hmove.mail
  slots := by
    intro r hslot t ht
    rcases hmove.slots r hslot with ⟨hold, hturn⟩ | hclean
    · exact h.slots r hold t (hturn ▸ ht)
    · exact (hclean t ht).2

namespace TurnMove

/-- A move that writes no phase. -/
theorem of_mail (hphase : reg'.recordPhase = reg.recordPhase)
    (haborted : reg'.registryAbortedRootTurns = reg.registryAbortedRootTurns)
    (hmail : ∀ r ∈ reg'.registryAgents,
      MailOk reg.registryAbortedRootTurns returned (reg'.recordMail r)) :
    TurnMove returned reg reg' where
  aborted := haborted
  mail := hmail
  slots := by
    intro r hslot
    rw [hphase] at hslot ⊢
    exact .inl ⟨hslot, rfl⟩

/-- A move that writes one phase. -/
theorem of_setPhase {phase : SubagentPhase}
    (hphase : reg'.recordPhase = Function.update reg.recordPhase record phase)
    (haborted : reg'.registryAbortedRootTurns = reg.registryAbortedRootTurns)
    (hmail : ∀ r ∈ reg'.registryAgents,
      MailOk reg.registryAbortedRootTurns returned (reg'.recordMail r))
    (hslot : phaseHoldsSlot phase →
      phaseHoldsSlot (reg.recordPhase record) ∧
          phaseRootTurnId phase = phaseRootTurnId (reg.recordPhase record) ∨
        Clean reg.registryAbortedRootTurns returned (phaseRootTurnId phase)) :
    TurnMove returned reg reg' where
  aborted := haborted
  mail := hmail
  slots := by
    intro r hr
    rw [hphase] at hr ⊢
    by_cases hrecord : r = record
    · subst hrecord
      rw [update_self] at hr ⊢
      exact hslot hr
    · rw [update_of_ne hrecord] at hr ⊢
      exact .inl ⟨hr, rfl⟩

/-- A move that gives the record a phase without a slot. -/
theorem of_rest {phase : SubagentPhase}
    (hphase : reg'.recordPhase = Function.update reg.recordPhase record phase)
    (haborted : reg'.registryAbortedRootTurns = reg.registryAbortedRootTurns)
    (hmail : ∀ r ∈ reg'.registryAgents,
      MailOk reg.registryAbortedRootTurns returned (reg'.recordMail r))
    (hslot : phaseHoldsSlot phase = false) : TurnMove returned reg reg' := by
  refine .of_setPhase hphase haborted hmail fun hs => ?_
  rw [hslot] at hs
  cases hs

end TurnMove

namespace TurnSafe

variable (h : TurnSafe returned reg)

include h

theorem of_eq (hphase : reg'.recordPhase = reg.recordPhase)
    (haborted : reg'.registryAbortedRootTurns = reg.registryAbortedRootTurns)
    (hagents : ∀ r ∈ reg'.registryAgents, r ∈ reg.registryAgents)
    (hmail : reg'.recordMail = reg.recordMail) : TurnMove returned reg reg' := by
  refine .of_mail hphase haborted fun r hr => ?_
  rw [hmail]
  exact h.mail r (hagents r hr)

theorem refl : TurnMove returned reg reg := h.of_eq rfl rfl (fun _ hr => hr) rfl

/-- One record gets other mail. -/
theorem update_mail {mail : Mail Unit}
    (hmail : record ∈ reg.registryAgents → MailOk reg.registryAbortedRootTurns returned mail) :
    ∀ r ∈ reg.registryAgents, MailOk reg.registryAbortedRootTurns returned
      (Function.update reg.recordMail record mail r) := by
  intro r hr
  by_cases hrecord : r = record
  · subst hrecord
    rw [update_self]
    exact hmail hr
  · rw [update_of_ne hrecord]
    exact h.mail r hr

theorem setMail {mail : Mail Unit}
    (hmail : record ∈ reg.registryAgents → MailOk reg.registryAbortedRootTurns returned mail) :
    TurnMove returned reg (reg.setMail record mail) :=
  .of_mail rfl rfl (h.update_mail hmail)

theorem enqueueWork {work : Work}
    (hwork : Clean reg.registryAbortedRootTurns returned work.workRootTurnId) :
    TurnMove returned reg (reg.enqueueWork record work) :=
  h.setMail fun hrecord => (h.mail record hrecord).enqueue hwork

theorem of_step {status : SubagentStatus} {step : SupervisorStep}
    (howned : ∀ r, phaseHoldsSlot (reg.recordPhase r) → r ∈ reg.registryAgents)
    (hstep : StepCase reg record status step reg') : TurnMove returned reg reg' := by
  cases hstep with
  | stop => exact h.of_eq rfl rfl (fun _ hr => hr) rfl
  | interrupted => exact .of_rest rfl rfl h.mail rfl
  | message hphase hmail =>
    rename_i turn work rest
    have hok := h.mail record (howned record (by rw [hphase]; rfl))
    have hqueue : ∀ other ∈ work :: rest,
        Clean reg.registryAbortedRootTurns returned other.workRootTurnId := hmail ▸ hok.mailbox
    refine .of_setPhase rfl rfl (h.update_mail fun _ => hok.setMailbox ?_) fun _ => .inr ?_
    · exact fun other hother => hqueue other (mem_cons_of_mem _ hother)
    · exact hqueue work mem_cons_self
  | rest | complete => exact h.refl
  | settle => exact .of_rest rfl rfl h.mail rfl

theorem of_mark (w : RegistryWorld) (hreg : w.registry = reg) (kind : InterruptKind) :
    TurnMove returned reg (w.mark kind record).2 := by
  have hempty : ∀ r ∈ reg.registryAgents, MailOk reg.registryAbortedRootTurns returned
      ((reg.setMailbox record []).recordMail r) :=
    h.update_mail fun hrecord => (h.mail record hrecord).setMailbox fun _ hwork => nomatch hwork
  cases kind with
  | abortTurn turn =>
    simp only [RegistryWorld.mark, hreg]
    obtain ⟨-, heq⟩ | ⟨work, hphase, heq⟩ | ⟨owner, hphase, heq⟩ | ⟨owner, -, heq⟩ :=
      interruptRecordForTurn_case reg turn record
    all_goals rw [heq]
    · exact h.refl
    · exact .of_rest rfl rfl h.mail rfl
    · refine .of_setPhase rfl rfl h.mail fun _ => .inl ?_
      rw [hphase]
      exact ⟨rfl, rfl⟩
    · exact h.refl
  | active wasClosed =>
    simp only [RegistryWorld.mark, hreg]
    obtain ⟨-, heq⟩ | ⟨work, hphase, heq⟩ | ⟨owner, hphase, heq⟩ | ⟨owner, -, heq⟩ :=
      interruptRecord_case reg record
    all_goals rw [heq]
    · exact .of_mail rfl rfl hempty
    · exact .of_rest rfl rfl hempty rfl
    · refine .of_setPhase rfl rfl hempty fun _ => .inl ?_
      rw [hphase]
      exact ⟨rfl, rfl⟩
    · exact .of_mail rfl rfl hempty

theorem of_interruptPending
    (howned : ∀ r, phaseHoldsSlot (reg.recordPhase r) → r ∈ reg.registryAgents) :
    TurnMove returned reg (reg.interruptPending record).2 := by
  obtain ⟨status, turn, -, heq⟩ | ⟨work, next, rest, hphase, hmail, heq⟩ | ⟨work, -, heq⟩ | heq :=
    interruptPending_case reg record
  all_goals rw [heq]
  · exact .of_rest rfl rfl h.mail rfl
  · -- the oldest queued work takes the place of the pending one
    have hok := h.mail record (howned record (by rw [hphase]; rfl))
    have hqueue : ∀ other ∈ next :: rest,
        Clean reg.registryAbortedRootTurns returned other.workRootTurnId := hmail ▸ hok.mailbox
    refine .of_setPhase rfl rfl (h.update_mail fun _ => hok.setMailbox ?_) fun _ => .inr ?_
    · exact fun other hother => hqueue other (mem_cons_of_mem _ hother)
    · exact hqueue next mem_cons_self
  · exact .of_rest rfl rfl h.mail rfl
  · exact h.refl

/-- Scheduling a clean work. -/
theorem of_schedule {work : Work} (hschedule : reg.scheduleIdleWork record work = .ok reg')
    (hwork : Clean reg.registryAbortedRootTurns returned work.workRootTurnId) :
    TurnMove returned reg reg' := by
  obtain ⟨-, -, rfl⟩ := scheduleIdleWork_ok hschedule
  exact .of_setPhase rfl rfl h.mail fun _ => .inr hwork

/-- A new record has no mail. -/
theorem insert_mail (phase : SubagentPhase) :
    ∀ r ∈ ((reg.allocate record phase).insertAgent record).registryAgents,
      MailOk reg.registryAbortedRootTurns returned ((reg.allocate record phase).recordMail r) := by
  intro r hr
  by_cases hrecord : r = record
  · subst hrecord
    simp only [allocate, update_self]
    exact .empty
  · simp only [allocate, update_of_ne hrecord]
    rcases KeyedList.mem_insert.mp hr with rfl | ⟨hr, -⟩
    · exact absurd rfl hrecord
    · exact h.mail r hr

end TurnSafe

end Registry

/-! ### The work of the holder of the lock -/

/-- The work a call brought in, not yet checked against the marked turns. -/
def LockedOp.unchecked : LockedOp → Option Work
  | .sendFound _ work _ => some work
  | .sendQueue _ work _ => some work
  | .restartReset _ work => some work
  | .restartSchedule _ work => some work
  | .resumeAdmit _ work none => some work
  | _ => none

/-- The work the holder has checked, or taken from the queue of its record. -/
def LockedOp.checked : LockedOp → Option (SubagentRecord × Work)
  | .resumeAdmit record work (some _) => some (record, work)
  | .resumePersist record work _ => some (record, work)
  | .resumeReset record work _ => some (record, work)
  | .resumeSchedule record work _ => some (record, work)
  | .dueRestore record work _ => some (record, work)
  | _ => none

/-- The work of the holder is known, and clean once it is checked. -/
structure HolderOk (returned : List RootTurnId) (reg : Registry) (holder : Option LockedOp) :
    Prop where
  unchecked : ∀ work ∈ holder.bind LockedOp.unchecked,
    Known reg.registryAbortedRootTurns returned work.workRootTurnId
  checked : ∀ due ∈ holder.bind LockedOp.checked, due.1 ∈ reg.registryAgents →
    Clean reg.registryAbortedRootTurns returned due.2.workRootTurnId

namespace HolderOk

variable {returned : List RootTurnId} {reg reg' : Registry} {holder : Option LockedOp}

/-- The holder has no work. -/
theorem idle (hunchecked : holder.bind LockedOp.unchecked = none)
    (hchecked : holder.bind LockedOp.checked = none) : HolderOk returned reg holder where
  unchecked := by
    rw [hunchecked]
    exact fun _ h => nomatch h
  checked := by
    rw [hchecked]
    exact fun _ h => nomatch h

theorem none : HolderOk returned reg none := idle rfl rfl

/-- Another thread moves. -/
theorem mono (h : HolderOk returned reg holder)
    (haborted : reg'.registryAbortedRootTurns = reg.registryAbortedRootTurns)
    (hagents : ∀ r ∈ reg'.registryAgents, r ∈ reg.registryAgents) :
    HolderOk returned reg' holder where
  unchecked := by
    rw [haborted]
    exact h.unchecked
  checked := by
    rw [haborted]
    exact fun due hdue hmem => h.checked due hdue (hagents _ hmem)

theorem of_unchecked {op : LockedOp} {work : Work} (hop : op.unchecked = some work)
    (hchecked : op.checked = Option.none)
    (hwork : Known reg.registryAbortedRootTurns returned work.workRootTurnId) :
    HolderOk returned reg (some op) where
  unchecked := by
    rw [Option.bind_some, hop]
    rintro _ ⟨⟩
    exact hwork
  checked := by
    rw [Option.bind_some, hchecked]
    exact fun _ h => nomatch h

theorem of_checked {op : LockedOp} {record : SubagentRecord} {work : Work}
    (hop : op.checked = some (record, work)) (hunchecked : op.unchecked = Option.none)
    (hwork : record ∈ reg.registryAgents →
      Clean reg.registryAbortedRootTurns returned work.workRootTurnId) :
    HolderOk returned reg (some op) where
  unchecked := by
    rw [Option.bind_some, hunchecked]
    exact fun _ h => nomatch h
  checked := by
    rw [Option.bind_some, hop]
    rintro _ ⟨⟩
    exact hwork

end HolderOk

section Holder

variable {returned : List RootTurnId} {reg : Registry} {record : SubagentRecord}

theorem beginOp_holderOk (call : LifecycleRequest)
    (hentered : ∀ agentId turn senderPath content metadata interrupt,
      call = .sendInput agentId turn senderPath content metadata interrupt →
      Known reg.registryAbortedRootTurns returned turn) :
    HolderOk returned (beginOp reg call).1 (beginOp reg call).2 := by
  cases call with
  | sendInput agentId turn senderPath content metadata interrupt =>
    simp only [beginOp]
    split
    · exact .none
    · cases reg.lookup agentId with
      | none => exact .none
      | some record =>
        exact .of_unchecked rfl rfl (hentered _ _ _ _ _ _ rfl)
  | queueMessage agentId turn senderPath content metadata =>
    simp only [beginOp]
    split <;> exact .none
  | closeSubagent agentId | interruptSubagent agentId =>
    exact .idle (by simp only [beginOp]; cases reg.lookup agentId <;> rfl)
      (by simp only [beginOp]; cases reg.lookup agentId <;> rfl)
  | restoreSubagent request | requestSubagentSuspension agentId now deadline reason =>
    simp only [beginOp]
    repeat' split
    all_goals exact .idle rfl rfl
  | _ => exact .idle rfl rfl

/-- A resumption that fails puts back the work it took. -/
theorem afterResume_holderOk {work : Work} {due : Option DueRun} {ok : Bool}
    (hwork : due ≠ none → record ∈ reg.registryAgents →
      Clean reg.registryAbortedRootTurns returned work.workRootTurnId) :
    HolderOk returned reg (afterResume record work due ok) := by
  cases due with
  | none => exact .none
  | some due =>
    simp only [afterResume, map_some]
    split
    · exact .of_checked rfl rfl (hwork (by simp))
    · exact .idle rfl rfl

theorem resumeAdmission_ok {work : Work} (h : reg.resumeAdmission work = .ok ()) :
    reg.isRootTurnAborted work.workRootTurnId = false := by
  unfold resumeAdmission at h
  split at h
  · cases h
  · split at h
    · cases h
    · rename_i hturn
      exact Bool.eq_false_iff.mpr hturn

theorem advance_holderOk {op : LockedOp} {ok : Bool} {next : Registry × Option LockedOp}
    (hsafe : TurnSafe returned reg) (h : HolderOk returned reg (some op))
    (hstep : op.advance reg ok = some next) : HolderOk returned next.1 next.2 := by
  cases op with
  | sendFound record work interrupt =>
    have hwork := h.unchecked work rfl
    simp only [LockedOp.advance] at hstep
    split at hstep
    all_goals cases hstep
    · exact .none
    · exact .none
    all_goals exact .of_unchecked rfl rfl hwork
  | sendQueue record work interrupt =>
    simp only [LockedOp.advance] at hstep
    split at hstep
    all_goals cases hstep
    · exact .none
    · cases interrupt <;> exact .idle rfl rfl
  | restartReset record work =>
    cases hstep
    exact .of_unchecked rfl rfl (h.unchecked work rfl)
  | restartSchedule record work =>
    simp only [LockedOp.advance] at hstep
    split at hstep
    · cases hstep
      exact .none
    · split at hstep
      all_goals
        cases hstep
        exact .none
  | resumeAdmit record work due =>
    simp only [LockedOp.advance] at hstep
    split at hstep
    · cases hstep
      refine afterResume_holderOk fun hdue => ?_
      cases due with
      | none => exact absurd rfl hdue
      | some due => exact h.checked (record, work) rfl
    · rename_i hadmission
      cases hstep
      refine .of_checked rfl rfl fun hmem => ?_
      cases due with
      | none => exact (h.unchecked work rfl).clean (not_aborted (resumeAdmission_ok hadmission))
      | some due => exact h.checked (record, work) rfl hmem
  | resumePersist record work due =>
    simp only [LockedOp.advance] at hstep
    split at hstep
    all_goals cases hstep
    · exact .of_checked rfl rfl (h.checked (record, work) rfl)
    · exact afterResume_holderOk fun _ => h.checked (record, work) rfl
  | resumeReset record work due =>
    cases hstep
    exact .of_checked rfl rfl (h.checked (record, work) rfl)
  | resumeSchedule record work due =>
    have hwork := h.checked (record, work) rfl
    simp only [LockedOp.advance] at hstep
    split at hstep
    · cases hstep
      exact afterResume_holderOk fun _ => hwork
    · rename_i scheduled hschedule
      cases hstep
      obtain ⟨-, -, rfl⟩ := scheduleIdleWork_ok hschedule
      exact afterResume_holderOk fun _ => hwork
  | dueNext now records =>
    cases records with
    | nil =>
      cases hstep
      exact .none
    | cons record rest =>
      simp only [LockedOp.advance] at hstep
      split at hstep
      all_goals
        cases hstep
        exact .idle rfl rfl
  | dueTake now record deadline reason rest =>
    simp only [LockedOp.advance] at hstep
    split at hstep
    · rename_i work mailbox hmail
      cases hstep
      refine .of_checked rfl rfl fun hmem => ?_
      exact (hsafe.mail record hmem).mailbox work (by rw [hmail]; exact mem_cons_self)
    · split at hstep
      all_goals cases hstep
      · exact .of_checked rfl rfl fun _ => Clean.none
      · exact .idle rfl rfl
  | dueRestore record work due =>
    cases hstep
    cases due <;> exact .idle rfl rfl
  | closeFound record =>
    obtain ⟨below, -, rfl⟩ := map_eq_some_iff.mp hstep
    exact .idle rfl rfl
  | interruptSettle record =>
    rw [LockedOp.advance, some.injEq] at hstep
    subst hstep
    dsimp only
    split <;> exact .idle rfl rfl
  | restoreWrite record request wasClosed =>
    cases hstep
    cases wasClosed <;> exact .idle rfl rfl
  | _ =>
    simp only [LockedOp.advance] at hstep
    repeat' split at hstep
    all_goals first
      | cases hstep; exact .idle rfl rfl
      | cases hstep

end Holder

/-! ### Runs -/

namespace RegistryWorld

variable {w w' : RegistryWorld}

/-- The root turn a call works for. -/
def enteredTurn : RegistryEvent → Option RootTurnId
  | .spawn request => request.rootTurnId
  | .request (.sendInput _ turn _ _ _ _) => turn
  | .request (.queueMessage _ turn _ _ _) => turn
  | _ => none

/-- The root turn a completion carries into the mail of a parent. -/
def routedTurn (w : RegistryWorld) : RegistryEvent → Option RootTurnId
  | .supervisor sid .publish =>
      (w.supervisors[sid]?).bind fun thread =>
        (w.registry.completionParent thread.owner).bind fun _ =>
          phaseRootTurnId (w.registry.recordPhase thread.owner)
  | _ => none

/-- The root turn a call aborts. -/
def abortedTurn : RegistryEvent → Option RootTurnId
  | .request (.abortRootTurn turn) => some turn
  | _ => none

/-- Ids identify records; a call does not use an aborted turn that a reset has forgotten; a
completion does not carry an aborted turn to a parent; and an abort does not find a record that an
earlier interrupter, stopped by an exception, has left interrupting for the turn. -/
def Final (w : RegistryWorld) (event : RegistryEvent) : Prop :=
  w.Identified event ∧
  (∀ t ∈ enteredTurn event, t ∈ w.abortReturned → t ∈ w.registry.registryAbortedRootTurns) ∧
  (∀ t ∈ w.routedTurn event, t ∉ w.registry.registryAbortedRootTurns ∧ t ∉ w.abortReturned) ∧
  ∀ t ∈ abortedTurn event, ∀ r ∈ w.registry.registryAgents,
    w.registry.recordPhase r ≠ .interrupting (some t)

instance (w : RegistryWorld) (event : RegistryEvent) : Decidable (w.Final event) :=
  inferInstanceAs (Decidable (_ ∧ _ ∧ _ ∧ _))

/-- The abort in progress has every record that works for its turn still before it. -/
def Aborting (w : RegistryWorld) : Prop :=
  ∀ t records pc, w.lifecycle = some (.interrupting (.abortTurn t) records pc) →
    t ∈ w.registry.registryAbortedRootTurns ∧
      ∀ r, phaseHoldsSlot (w.registry.recordPhase r) →
        phaseRootTurnId (w.registry.recordPhase r) = some t → r ∈ records ∧ pc r ≠ .finished

structure AbortInv (w : RegistryWorld) : Prop where
  slots : w.SlotInv False
  safe : TurnSafe w.abortReturned w.registry
  holder : HolderOk w.abortReturned w.registry w.lifecycle
  aborting : w.Aborting

theorem init_abortInv (config : SubagentConfig) : (init config).AbortInv where
  slots := init_slotInv config
  safe := ⟨fun _ h => (nomatch h), fun _ h => (nomatch h)⟩
  holder := .none
  aborting := fun _ _ _ h => nomatch h

theorem turnMove_of_effect {thread : SupervisorThread} {move : SupervisorEvent} {reg' : Registry}
    (hinv : w.AbortInv)
    (hrouted : ∀ work status, move = .publish → thread.pc = .completing work status →
      ∀ parent, w.registry.completionParent thread.owner = some parent →
      Clean w.registry.registryAbortedRootTurns w.abortReturned
        (phaseRootTurnId (w.registry.recordPhase thread.owner)))
    (h : SupervisorEffect w.registry thread move reg') :
    TurnMove w.abortReturned w.registry reg' := by
  have hsafe := hinv.safe
  cases h with
  | take htaken =>
    obtain ⟨-, rfl⟩ | ⟨work, hphase, rfl⟩ := takeStartedWork_case htaken
    · exact hsafe.refl
    · refine .of_setPhase rfl rfl hsafe.mail fun _ => .inl ?_
      rw [hphase]
      exact ⟨rfl, rfl⟩
  | reset => exact hsafe.of_eq rfl rfl (fun _ hr => hr) rfl
  | step hpc hstep => exact hsafe.of_step hinv.slots.accounts.owned hstep
  | finish hpc hfinish =>
    exact hsafe.of_step hinv.slots.accounts.owned (finishSupervisorStep_case hfinish)
  | publish hpc =>
    rename_i work status
    obtain ⟨-, heq⟩ | ⟨parent, routed, hparent, hturn, -, heq⟩ :=
      publishCompletion_case w.registry thread.owner status (completionMetadata work)
    all_goals rw [heq]
    · exact hsafe.of_eq rfl rfl (fun _ hr => hr) rfl
    · have hclean := hrouted work status rfl hpc parent hparent
      exact .of_mail rfl rfl (hsafe.enqueueWork (hturn ▸ hclean)).mail
  | acquire hmail =>
    exact hsafe.setMail fun hrecord => (hsafe.mail _ hrecord).acquire hmail
  | release record => exact hsafe.setMail fun hrecord => (hsafe.mail _ hrecord).release _
  | steer hsteering hwork =>
    exact hsafe.setMail fun hrecord => (hsafe.mail _ hrecord).steer hsteering hwork
  | other => exact hsafe.of_eq rfl rfl (fun _ hr => hr) rfl

variable {op : LockedOp}

theorem turnMove_of_holder {reg' : Registry} (hinv : w.AbortInv)
    (hop : w.lifecycle = some op) (h : HolderMove w.registry op reg') :
    TurnMove w.abortReturned w.registry reg' := by
  have hsafe := hinv.safe
  have hholder := hinv.holder
  have hslots := hinv.slots.holder op hop
  rw [hop] at hholder
  cases h with
  | look => exact hsafe.refl
  | enqueue hturn =>
    exact hsafe.enqueueWork ((hholder.unchecked _ rfl).clean (not_aborted hturn))
  | restart hturn hschedule =>
    exact hsafe.of_schedule hschedule ((hholder.unchecked _ rfl).clean (not_aborted hturn))
  | resume hschedule =>
    rename_i record work due
    -- an idle record is not closed, so the holder knows it to be registered
    obtain ⟨⟨status, turn, hphase⟩, -, -⟩ := scheduleIdleWork_ok hschedule
    have hmem : record ∈ w.registry.registryAgents := by
      rcases hslots record mem_cons_self with hmem | hclosed
      · exact hmem
      · rw [hphase] at hclosed
        cases hclosed
    exact hsafe.of_schedule hschedule (hholder.checked (record, work) rfl hmem)
  | dueTake hmail =>
    rename_i now record deadline reason rest work mailbox
    refine hsafe.setMail fun hrecord =>
      (hsafe.mail record hrecord).setMailbox fun other hother => ?_
    exact (hsafe.mail record hrecord).mailbox other
      (by rw [hmail]; exact mem_cons_of_mem _ hother)
  | dueRestore =>
    rename_i record work due
    refine hsafe.setMail fun hrecord =>
      (hsafe.mail record hrecord).setMailbox fun other hother => ?_
    rcases mem_cons.mp hother with rfl | hother
    · exact hholder.checked (record, other) rfl hrecord
    · exact (hsafe.mail record hrecord).mailbox other hother
  | settle => exact hsafe.of_interruptPending hinv.slots.accounts.owned
  | rewrite => exact .of_rest rfl rfl hsafe.mail (normalizedPhase_slot _)
  | reopen | close => exact .of_rest rfl rfl hsafe.mail rfl
  | insert hrestore =>
    obtain ⟨-, -, paths, rfl⟩ := restoreMissing_ok hrestore
    exact .of_rest rfl rfl (hsafe.insert_mail _) (normalizedPhase_slot _)
  | cancel | restartReset | resumeReset | restoreReset | suspensions =>
    exact hsafe.of_eq rfl rfl (fun _ hr => hr) rfl

variable {event : RegistryEvent}

/-- What a move does to the turns of phases and mail. -/
theorem turnMove_of_step (hinv : w.AbortInv) (hok : w.Final event) (h : w.step event = some w') :
    TurnMove w.abortReturned w.registry w'.registry ∨
      (∃ t, event = .request (.abortRootTurn t) ∧ w'.registry = w.registry.markAborted t) ∨
      event = .conclude ∧ w'.registry = w.registry.clear := by
  have hsafe := hinv.safe
  obtain ⟨-, hentered, hrouted, -⟩ := hok
  have hmove := registry_of_step h
  generalize w'.registry = reg' at hmove ⊢
  cases hmove with
  | frame => exact .inl (hsafe.of_eq rfl rfl (fun _ hr => hr) rfl)
  | supervised hget heffect =>
    refine .inl (turnMove_of_effect hinv ?_ heffect)
    rintro work status rfl hpc parent hparent t ht
    exact hrouted t (by simpa [routedTurn, hget, hparent] using ht)
  | admitted hfree hadmission =>
    obtain ⟨haborted, -, -, -, work, hturn, rfl⟩ := admitSubagent_ok hadmission
    refine .inl (.of_setPhase rfl rfl (hsafe.insert_mail (.pending work)) fun _ => .inr ?_)
    change Clean _ _ work.workRootTurnId
    rw [hturn]
    exact Known.clean hentered (not_aborted haborted)
  | queued hwork hturn =>
    refine .inl (hsafe.enqueueWork ?_)
    rw [hwork]
    exact Known.clean hentered (not_aborted hturn)
  | aborted => exact .inr (.inl ⟨_, rfl, rfl⟩)
  | advanced hop hholder => exact .inl (turnMove_of_holder hinv hop hholder)
  | cancelled => exact .inl (hsafe.of_eq rfl rfl (fun _ hr => hr) rfl)
  | closed record =>
    refine .inl (.of_rest rfl rfl (hsafe.update_mail fun hrecord => ?_) rfl)
    exact (hsafe.mail record hrecord).setMailbox fun _ hwork => nomatch hwork
  | rolledBack =>
    exact .inl (.of_rest rfl rfl (fun r hr => hsafe.mail r (KeyedList.mem_delete.mp hr).1) rfl)
  | marked => exact .inl (hsafe.of_mark w rfl _)
  | cleared => exact .inr (.inr ⟨rfl, rfl⟩)
  | waited hget hreg =>
    obtain ⟨cursors, waits, rfl⟩ := hreg
    exact .inl (hsafe.of_eq rfl rfl (fun _ hr => hr) rfl)

/-- An abort returns when it is through with all its records, and nothing else does. -/
theorem abortReturned_of_step (h : w.step event = some w') :
    w'.abortReturned = w.abortReturned ∨
      ∃ t records pc, w.lifecycle = some (.interrupting (.abortTurn t) records pc) ∧
        (∀ r ∈ records, pc r = .finished) ∧
        w' = { w with lifecycle := none, abortReturned := t :: w.abortReturned } := by
  cases event with
  | supervisor sid event =>
    obtain ⟨thread, hget, h⟩ := bind_eq_some_iff.mp h
    exact .inl (supervise_case hget h).2.2.abortReturned
  | spawn request =>
    simp only [step] at h
    repeat' split at h
    all_goals first
      | cases h; exact .inl rfl
      | cases h
  | spawned tid event =>
    obtain ⟨thread, -, h⟩ := bind_eq_some_iff.mp h
    exact .inl (spawnStep_frame h).1.2.2
  | request call =>
    simp only [step] at h
    split at h
    · cases h
    · cases h
      exact .inl rfl
  | advance ok =>
    obtain ⟨op, -, h⟩ := bind_eq_some_iff.mp h
    obtain ⟨next, -, rfl⟩ := map_eq_some_iff.mp h
    exact .inl rfl
  | start ok =>
    obtain ⟨op, -, h⟩ := bind_eq_some_iff.mp h
    exact .inl (startStep_frame h).2
  | worker record =>
    obtain ⟨op, -, h⟩ := bind_eq_some_iff.mp h
    exact .inl (workerStep_frame h).2.2
  | conclude =>
    obtain ⟨op, hop, h⟩ := bind_eq_some_iff.mp h
    unfold concludeStep at h
    split at h
    · split at h
      · cases h
        exact .inl rfl
      · cases h
    · split at h
      · cases h
        exact .inl rfl
      · cases h
    · split at h
      · rename_i hfinished
        split at h
        · cases h
          exact .inr ⟨_, _, _, hop, hfinished, rfl⟩
        · cases h
          exact .inl rfl
      · cases h
    · cases h
  | abandon =>
    obtain ⟨op, -, h⟩ := bind_eq_some_iff.mp h
    exact .inl (abandonStep_frame h).2.2
  | wait caller targets =>
    cases h
    exact .inl rfl
  | waiting wid event =>
    obtain ⟨thread, -, h⟩ := bind_eq_some_iff.mp h
    exact .inl (waitStep_frame h).2.2.2
  | setMaxConcurrent limit | beginRootTurn =>
    cases h
    exact .inl rfl

/-- The ends of `startRecordSupervisor` leave the holder without work. -/
theorem startStep_idle {ok : Bool} (h : w.startStep ok op = some w') :
    w'.lifecycle.bind LockedOp.unchecked = none ∧ w'.lifecycle.bind LockedOp.checked = none := by
  cases startStep_case h with
  | ended hop hend => cases hend <;> exact ⟨rfl, rfl⟩
  | _ => exact ⟨rfl, rfl⟩

theorem workerStep_idle {record : SubagentRecord}
    (h : w.workerStep record op = some w') :
    w'.lifecycle.bind LockedOp.unchecked = none ∧ w'.lifecycle.bind LockedOp.checked = none := by
  unfold workerStep at h
  split at h
  · split at h
    · obtain ⟨next, -, rfl⟩ := map_eq_some_iff.mp h
      exact ⟨rfl, rfl⟩
    · cases h
  · split at h
    · obtain ⟨next, -, rfl⟩ := map_eq_some_iff.mp h
      exact ⟨rfl, rfl⟩
    · cases h
  · split at h
    · obtain ⟨next, hlock, -⟩ := interruptStep_case h
      rw [hlock]
      exact ⟨rfl, rfl⟩
    · cases h
  · cases h

/-- The handlers of a resumption put back the work it took. -/
theorem abandonStep_holderOk
    (hholder : HolderOk w.abortReturned w.registry (some op)) (h : w.abandonStep op = some w') :
    HolderOk w.abortReturned w'.registry w'.lifecycle := by
  have hrestore : ∀ (record : SubagentRecord) (work : Work) (queued : Bool),
      op.checked = some (record, work) →
      HolderOk w.abortReturned w.registry
        (if queued then some (.dueRestore record work none) else none) := by
    intro record work queued hchecked
    cases queued with
    | false => exact .none
    | true => exact .of_checked rfl rfl (hholder.checked (record, work) hchecked)
  have hthrown : ∀ caller, HolderOk w.abortReturned (w.startThrown caller).registry
      (w.startThrown caller).lifecycle := by
    intro caller
    cases caller <;> exact .none
  unfold abandonStep at h
  split at h
  · cases h
  · cases h
    exact hrestore _ _ _ rfl
  · cases h
    exact hrestore _ _ _ rfl
  · cases h
    exact hrestore _ _ _ rfl
  · cases h
    exact hrestore _ _ _ rfl
  · cases h
    exact .none
  · cases h
    exact hthrown _
  · cases h
    exact hthrown _
  · cases h
    exact .idle rfl rfl
  · cases h
    exact hthrown _
  · cases h
    exact .none

theorem holderOk_step (hinv : w.AbortInv) (hok : w.Final event) (h : w.step event = some w') :
    HolderOk w.abortReturned w'.registry w'.lifecycle := by
  have hholder := hinv.holder
  cases event with
  | supervisor sid event =>
    obtain ⟨thread, hget, h⟩ := bind_eq_some_iff.mp h
    obtain ⟨heffect, -, hframe⟩ := supervise_case hget h
    have hrely := heffect.rely
    rcases hframe.lifecycle with hlock | hlock | ⟨request, -, hlock⟩
    all_goals rw [hlock]
    · exact hholder.mono hrely.aborted hrely.agents
    · exact .none
    · exact .idle rfl rfl
  | spawn request =>
    simp only [step] at h
    split at h
    · cases h
    · rename_i hfree
      split at h
      · cases h
        exact hholder
      · cases h
        dsimp only
        rw [hfree]
        exact .none
  | spawned tid event =>
    obtain ⟨thread, -, h⟩ := bind_eq_some_iff.mp h
    have hrely := spawnStep_rely h
    obtain ⟨-, -, hlock | ⟨-, hlock⟩⟩ := spawnStep_frame h
    all_goals rw [hlock]
    · exact hholder.mono hrely.aborted hrely.agents
    · exact .idle rfl rfl
  | request call =>
    simp only [step] at h
    split at h
    · cases h
    · cases h
      refine beginOp_holderOk call ?_
      rintro agentId turn senderPath content metadata interrupt rfl
      exact hok.2.1
  | advance ok =>
    obtain ⟨op, hop, h⟩ := bind_eq_some_iff.mp h
    obtain ⟨next, hnext, rfl⟩ := map_eq_some_iff.mp h
    rw [hop] at hholder
    exact advance_holderOk hinv.safe hholder hnext
  | start ok =>
    obtain ⟨op, -, h⟩ := bind_eq_some_iff.mp h
    exact .idle (startStep_idle h).1 (startStep_idle h).2
  | worker record =>
    obtain ⟨op, -, h⟩ := bind_eq_some_iff.mp h
    exact .idle (workerStep_idle h).1 (workerStep_idle h).2
  | conclude =>
    obtain ⟨op, -, h⟩ := bind_eq_some_iff.mp h
    rw [(concludeStep_frame h).1]
    exact .none
  | abandon =>
    obtain ⟨op, hop, h⟩ := bind_eq_some_iff.mp h
    rw [hop] at hholder
    exact abandonStep_holderOk hholder h
  | wait caller targets =>
    cases h
    exact hholder.mono rfl fun _ hr => hr
  | waiting wid event =>
    obtain ⟨thread, -, h⟩ := bind_eq_some_iff.mp h
    have hrely := waitStep_rely h
    rw [(waitStep_frame h).1]
    exact hholder.mono hrely.aborted hrely.agents
  | setMaxConcurrent limit | beginRootTurn =>
    cases h
    exact hholder.mono rfl fun _ hr => hr

/-- A slot for a turn belongs to a pending or running record, or to one that is interrupted. -/
theorem active_of_slot {phase : SubagentPhase} {t : RootTurnId} (hslot : phaseHoldsSlot phase)
    (hturn : phaseRootTurnId phase = some t) (hne : phase ≠ .interrupting (some t)) :
    phaseStatus phase = .pending ∨ phaseStatus phase = .running := by
  cases phase with
  | pending work => exact .inl rfl
  | running owner => exact .inr rfl
  | interrupting owner => exact absurd (congrArg SubagentPhase.interrupting hturn) hne
  | idle status owner | closed => cases hslot

/-- The mark settles the record, or the abort waits for it. -/
theorem mark_settles {t : RootTurnId} {record : SubagentRecord}
    (hslot : phaseHoldsSlot ((w.mark (.abortTurn t) record).2.recordPhase record))
    (hturn : phaseRootTurnId ((w.mark (.abortTurn t) record).2.recordPhase record) = some t) :
    (w.mark (.abortTurn t) record).1 = .wait := by
  simp only [mark] at hslot hturn ⊢
  obtain ⟨hcase, heq⟩ | ⟨work, -, heq⟩ | ⟨owner, -, heq⟩ | ⟨owner, -, heq⟩ :=
    interruptRecordForTurn_case w.registry t record
  all_goals rw [heq] at hslot hturn ⊢
  · rcases hcase with hne | hfree
    · exact absurd hturn hne
    · rw [hfree] at hslot
      cases hslot
  · simp [setPhase, phaseHoldsSlot] at hslot

theorem aborting_step (hinv : w.AbortInv) (hok : w.Final event) (h : w.step event = some w') :
    w'.Aborting := by
  intro t records pc hlock
  have hslots : w'.SlotInv False := slotInv_step hinv.slots hok.1 (fun hc => hc.elim) h
  have hmoves := turnMove_of_step hinv hok h
  rcases interrupting_of_step h hlock with ⟨hsame, hrely, -⟩ | ⟨call, rfl, hfree, rfl⟩ |
    ⟨r, before, rfl, hbefore, hr, hstep⟩
  · -- another thread moves: a slot for the turn was one before, for the queues are clean
    obtain ⟨haborted, hrecords⟩ := hinv.aborting t records pc (hsame.trans hlock)
    refine ⟨hrely.aborted ▸ haborted, fun r hslot hturn => ?_⟩
    rcases hmoves with hmove | ⟨s, rfl, -⟩ | ⟨rfl, -⟩
    · rcases hmove.slots r hslot with ⟨hold, holdTurn⟩ | hclean
      · exact hrecords r hold (holdTurn ▸ hturn)
      · exact absurd haborted (hclean t hturn).1
    · -- a call takes the lock, which is not free
      simp only [step] at h
      split at h
      · cases h
      · rename_i hnone
        rw [hsame, hlock] at hnone
        cases hnone
    · obtain ⟨op, -, h⟩ := bind_eq_some_iff.mp h
      rw [(concludeStep_frame h).1] at hlock
      cases hlock
  · -- the abort begins
    cases call with
    | abortRootTurn turn =>
      cases hlock
      refine ⟨mem_cons_self, fun r hslot hturn => ⟨?_, fun hpc => by cases hpc⟩⟩
      have hmem : r ∈ w.registry.registryAgents := hslots.accounts.owned r hslot
      refine mem_filter.mpr ⟨hmem, ?_⟩
      have hphase : phaseHoldsSlot (w.registry.recordPhase r) := hslot
      have howner : phaseRootTurnId (w.registry.recordPhase r) = some t := hturn
      have hfree := hok.2.2.2 t rfl r hmem
      exact decide_eq_true ⟨howner, active_of_slot hphase howner hfree⟩
    | sendInput agentId turn senderPath content metadata interrupt =>
      simp only [beginOp] at hlock
      split at hlock
      · cases hlock
      · obtain ⟨record, -, hlock⟩ := map_eq_some_iff.mp hlock
        cases hlock
    | closeSubagent agentId | interruptSubagent agentId =>
      obtain ⟨record, -, hlock⟩ := map_eq_some_iff.mp hlock
      cases hlock
    | _ =>
      simp only [beginOp] at hlock
      repeat' split at hlock
      all_goals cases hlock
  · -- the abort moves on one of its records
    obtain ⟨haborted, hrecords⟩ := hinv.aborting t records before hbefore
    have hrely := interruptStep_rely hstep
    refine ⟨hrely.aborted ▸ haborted, fun s hslot hturn => ?_⟩
    have hold : phaseHoldsSlot (w.registry.recordPhase s) ∧
        phaseRootTurnId (w.registry.recordPhase s) = some t := by
      rcases hmoves with hmove | ⟨_, hevent, -⟩ | ⟨hevent, -⟩
      · rcases hmove.slots s hslot with ⟨hold, holdTurn⟩ | hclean
        · exact ⟨hold, holdTurn ▸ hturn⟩
        · exact absurd haborted (hclean t hturn).1
      · cases hevent
      · cases hevent
    obtain ⟨hmem, hbeforePc⟩ := hrecords s hold.1 hold.2
    refine ⟨hmem, ?_⟩
    obtain ⟨next, hafter, -, -, -, hcase⟩ := interruptStep_case hstep
    have hpc : pc = Function.update before r next := by
      rw [hlock, some.injEq, LockedOp.interrupting.injEq] at hafter
      exact hafter.2.2
    rw [hpc]
    by_cases hs : s = r
    · subst hs
      rw [update_self]
      rcases hcase with ⟨-, rfl, -⟩ | ⟨-, -, hnext, hreg⟩ | ⟨-, rfl, -⟩ | ⟨-, -, -, hfree, -⟩
      · simp
      · rw [hreg] at hslot hturn
        rw [hnext, if_pos (mark_settles hslot hturn)]
        simp
      · simp
      · rw [hold.1] at hfree
        cases hfree
    · rw [update_of_ne hs]
      exact hbeforePc

theorem abortInv_step (hinv : w.AbortInv) (hok : w.Final event) (h : w.step event = some w') :
    w'.AbortInv := by
  have hslots : w'.SlotInv False := slotInv_step hinv.slots hok.1 (fun hc => hc.elim) h
  have haborting := aborting_step hinv hok h
  rcases abortReturned_of_step h with hreturned | ⟨t, records, pc, hlock, hfinished, rfl⟩
  · refine ⟨hslots, ?_, ?_, haborting⟩
    · rw [hreturned]
      rcases turnMove_of_step hinv hok h with hmove | ⟨t, -, hreg⟩ | ⟨-, hreg⟩
      · exact hmove.safe hinv.safe
      · rw [hreg]
        refine ⟨fun r hr => ?_, hinv.safe.slots⟩
        have hmem : r ∈ w.registry.registryAgents := hr
        simp only [markAborted, if_pos hmem]
        exact (hinv.safe.mail r hmem).discard t
      · rw [hreg]
        exact ⟨fun r hr => (nomatch hr), hinv.safe.slots⟩
    · rw [hreturned]
      exact holderOk_step hinv hok h
  · -- the abort returns
    obtain ⟨haborted, hrecords⟩ := hinv.aborting t records pc hlock
    refine ⟨hslots, ⟨fun r hr => (hinv.safe.mail r hr).returns haborted, ?_⟩, .none, haborting⟩
    intro r hslot s hs hmem
    rcases mem_cons.mp hmem with rfl | hmem
    · obtain ⟨hr, hpc⟩ := hrecords r hslot hs
      exact hpc (hfinished r hr)
    · exact hinv.safe.slots r hslot s hs hmem

/-- A supervisor takes up work that no supervisor of its record was about to run. -/
def Starts (w w' : RegistryWorld) (work : Work) : Prop :=
  ∃ thread ∈ w'.supervisors, thread.pc = .starting work ∧
    ∀ old ∈ w.supervisors, old.owner = thread.owner → old.pc ≠ .starting work

/-- Work is taken up together with the phase of its record. -/
theorem running_of_starts {work : Work} (h : w.step event = some w') (hstarts : w.Starts w' work) :
    (∃ record, w'.registry.recordPhase record = .running work.workRootTurnId) ∧
      w'.abortReturned = w.abortReturned := by
  obtain ⟨thread, hthread, hpc, hnew⟩ := hstarts
  cases thread_of_step h hthread with
  | same hmem => exact absurd hpc (hnew thread hmem rfl)
  | moved hevent hget hstep hmove =>
    rename_i sid move old
    refine ⟨?_, (supervise_case hget hstep).2.2.abortReturned⟩
    rcases hmove.starting work hpc with hsame | ⟨-, hphase⟩
    · exact absurd (hsame ▸ hpc) (hnew old (mem_of_getElem? hget) hmove.owner.symm)
    · exact ⟨old.owner, hphase⟩
  | started hleasing =>
    rw [hleasing] at hpc
    cases hpc
  | requested hlock hmem hpc' hreg holdMem howner hrun =>
    rename_i record kind records pc old
    exact absurd hpc (hnew old holdMem rfl)

end RegistryWorld

/-- **Aborting a root turn is final.**  In every state of every run that meets the condition, once
an abort has returned no record is pending, running or interrupting for its turn, no mailbox of the
registry holds work for it, and no move that meets the condition takes up work for it. -/
theorem aborted_turn_final {config : SubagentConfig} {w : RegistryWorld} {t : RootTurnId}
    (h : ReachableBy RegistryWorld.step RegistryWorld.Final (.init config) w)
    (ht : t ∈ w.abortReturned) :
    (∀ r, phaseHoldsSlot (w.registry.recordPhase r) →
      phaseRootTurnId (w.registry.recordPhase r) ≠ some t) ∧
    (∀ r ∈ w.registry.registryAgents, ∀ work ∈ (w.registry.recordMail r).recordMailbox,
      work.workRootTurnId ≠ some t) ∧
    ∀ event w', w.Final event → w.step event = some w' → ∀ work, w.Starts w' work →
      work.workRootTurnId ≠ some t := by
  have hinv : w.AbortInv :=
    h.invariant (RegistryWorld.init_abortInv config) fun _ _ _ hinv hok hstep =>
      RegistryWorld.abortInv_step hinv hok hstep
  refine ⟨fun r hslot hturn => hinv.safe.slots r hslot t hturn ht, ?_, ?_⟩
  · intro r hr work hwork hturn
    exact ((hinv.safe.mail r hr).mailbox work hwork t hturn).2 ht
  · intro event w' hok hstep work hstarts hturn
    obtain ⟨⟨record, hphase⟩, hreturned⟩ := RegistryWorld.running_of_starts hstep hstarts
    have hafter := (RegistryWorld.abortInv_step hinv hok hstep).safe.slots record
      (by rw [hphase]; rfl) t (by rw [hphase]; exact hturn)
    exact hafter (hreturned ▸ ht)

/-- The child of an aborted turn is cancelled, and the abort returns. -/
def returnedRun : List RegistryEvent :=
  abortRun ++ [.supervisor 0 .cancelled, .supervisor 0 .drop, .supervisor 0 .decide,
    .supervisor 0 .step, .worker exampleChild, .conclude]

theorem aborted_turn_final_in_returnedRun :
    ∃ w, ReachableBy RegistryWorld.step RegistryWorld.Final
        (.init defaultSubagentConfig) w ∧ 1 ∈ w.abortReturned ∧
      exampleChild ∈ w.registry.registryAgents ∧
      ∀ r, phaseHoldsSlot (w.registry.recordPhase r) →
        phaseRootTurnId (w.registry.recordPhase r) ≠ some 1 := by
  have hrun : (Machine.run (guarded RegistryWorld.Final RegistryWorld.step)
      (.init defaultSubagentConfig) returnedRun).any
        (fun w => 1 ∈ w.abortReturned ∧ exampleChild ∈ w.registry.registryAgents) = true := by
    decide +kernel
  obtain ⟨w, hw, htest⟩ := exists_reachableBy_of_run hrun
  obtain ⟨hreturned, hmem⟩ := of_decide_eq_true htest
  exact ⟨w, hw, hreturned, hmem, (aborted_turn_final hw hreturned).1⟩

def nestedConfig : SubagentConfig := { defaultSubagentConfig with maxDepth := some 2 }

/-- The record of an agent that the example child spawns. -/
def exampleGrandchild : SubagentRecord where
  recordRef := 1
  recordId := ['y']
  recordParent := some ['x']
  recordDepth := 2
  recordTaskPath := taskPathRoot ++ ['/', 'a', '/', 'b']

/-- The supervisor sees its run return, and has no suspension to commit. -/
def endRun (sid : ℕ) : List RegistryEvent :=
  [.supervisor sid (.returned (.finished none)), .supervisor sid .commit,
    .supervisor sid (.committed .persisted), .supervisor sid .decide, .supervisor sid .step]

/-- A child runs for root turn 1 and its own child for root turn 2.  The grandchild has ended and is
about to publish when turn 2 is aborted; after the abort has returned the run of the child ends. -/
def revivedRun : List RegistryEvent :=
  childRun ++ [.spawn { exampleSpawn ['y'] ['b'] (some 2) with parentId := some ['x'] }] ++
    startSpawned 1 1 ++ beginRun 1 ++ endRun 1 ++
    [.request (.abortRootTurn 2), .worker exampleGrandchild, .worker exampleGrandchild,
      .supervisor 1 .publish, .worker exampleGrandchild, .supervisor 1 .notify,
      .supervisor 1 .finish, .worker exampleGrandchild, .conclude] ++ endRun 0

/-- **An aborted turn is revived.**  The completion of the grandchild entered the queue of the child
after the abort had emptied it, and the child now runs for the aborted turn. -/
theorem aborted_turn_revived :
    ∃ w, Reachable RegistryWorld.step (.init nestedConfig) w ∧ 2 ∈ w.abortReturned ∧
      w.registry.recordPhase exampleChild = .running (some 2) := by
  have hrun : (Machine.run RegistryWorld.step (.init nestedConfig) revivedRun).any
        (fun w => 2 ∈ w.abortReturned ∧
          w.registry.recordPhase exampleChild = .running (some 2)) = true := by
    decide +kernel
  obtain ⟨w, hw, htest⟩ := exists_reachable_of_run hrun
  exact ⟨w, hw, of_decide_eq_true htest⟩

end HaskellAgent
