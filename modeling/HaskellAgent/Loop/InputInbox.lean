import HaskellAgent.Loop.Input
import Mathlib.Data.List.Infix
import Mathlib.Data.List.Nodup

/-!
# The input inbox

An activation pulls its inputs from a loader, and the loader may return any rows each time: rows
disappear, reappear and change their order.  The inbox keeps the rows it has shown to a request in
the order of their first appearance, and an acknowledgement accepts a number of them at the front.
So a request names its rows by nothing but their number.

The number of a request denotes its rows as long as nothing has been accepted since they were read.
Hosts serialise requests and acknowledgements for this reason; a host that acknowledged two
requests which overlap would accept rows the second of them never contained.
-/

open List

namespace HaskellAgent

variable {κ α : Type*}

/-! ### The module -/

/-- An inbox: the identities of the activation's first input and the state under its lock.  What the
loader returns comes with each read. -/
structure InputInbox (κ α : Type*) where
  initialIds : List κ
  accepted : List (κ × α)
  outstanding : List (κ × α)
  deriving DecidableEq

def newInputInbox (initialIds : List κ) : InputInbox κ α :=
  { initialIds := initialIds, accepted := [], outstanding := [] }

namespace InputInbox

def acceptedInputInboxItems (inbox : InputInbox κ α) : List α := inbox.accepted.map Prod.snd

def acceptedSteeringIds (inbox : InputInbox κ α) : List κ := inbox.accepted.map Prod.fst

def acceptedInputInboxIds (inbox : InputInbox κ α) : List κ :=
  inbox.initialIds ++ inbox.acceptedSteeringIds

def outstandingInputInboxIds (inbox : InputInbox κ α) : List κ := inbox.outstanding.map Prod.fst

def submittedInputInboxIds (inbox : InputInbox κ α) : List κ :=
  inbox.initialIds ++ inbox.acceptedSteeringIds ++ inbox.outstandingInputInboxIds

/-- The receipt handed to the callback of `completeInputInbox`. -/
def completeInputInbox (inbox : InputInbox κ α) : List κ := inbox.acceptedInputInboxIds

/-- The rows shown so far, accepted or not. -/
def rows (inbox : InputInbox κ α) : List (κ × α) := inbox.accepted ++ inbox.outstanding

/-- The batch after a read for which the loader returned `loaded`. -/
def extended [DecidableEq κ] (inbox : InputInbox κ α) (loaded : List (κ × α)) : List (κ × α) :=
  let seen := inbox.initialIds ++ inbox.accepted.map Prod.fst ++ inbox.outstanding.map Prod.fst
  inbox.outstanding ++ loaded.filter fun row => row.1 ∉ seen

/-- Read the payloads of the batch and the identities the request covers. -/
def readInputInboxSnapshot [DecidableEq κ] (inbox : InputInbox κ α) (loaded : List (κ × α)) :
    InputInbox κ α × (List α × List κ) :=
  let extended := inbox.extended loaded
  let coverageIds := inbox.initialIds ++ inbox.accepted.map Prod.fst ++ extended.map Prod.fst
  ({ inbox with outstanding := extended }, (extended.map Prod.snd, coverageIds))

def acknowledgementError : Text :=
  "InputInbox: acknowledgement exceeds the frozen batch".toList

/-- Accept the first `count` rows of the batch. -/
def acknowledgeInputInbox (inbox : InputInbox κ α) (count : ℤ) :
    Except Text (InputInbox κ α) :=
  if count < 0 ∨ count > inbox.outstanding.length then .error acknowledgementError
  else .ok { inbox with
    accepted := inbox.accepted ++ inbox.outstanding.take count.toNat
    outstanding := inbox.outstanding.drop count.toNat }

end InputInbox

/-! ### An activation -/

/-- The rows of one call of the loader: their identities are distinct, as `newInputInbox` asks. -/
structure LoadedRows (κ α : Type*) where
  rows : List (κ × α)
  distinct : (rows.map Prod.fst).Nodup

/-- What a read returned, with the rows of the inbox at that moment. -/
structure InboxSnapshot (κ α : Type*) where
  items : List α
  coverageIds : List κ
  /-- The rows accepted before the read. -/
  before : List (κ × α)
  /-- The rows whose payloads the request contains. -/
  batch : List (κ × α)
  deriving DecidableEq

inductive InboxEvent (κ α : Type*)
  | read (loaded : LoadedRows κ α)
  | acknowledge (count : ℤ)

structure InboxWorld (κ α : Type*) where
  inbox : InputInbox κ α
  snapshots : List (InboxSnapshot κ α)

namespace InboxWorld

/-- Before the first read. -/
def start (initialIds : List κ) : InboxWorld κ α :=
  { inbox := newInputInbox initialIds, snapshots := [] }

variable [DecidableEq κ]

/-- A read or an acknowledgement; one that is rejected changes nothing. -/
def next (w : InboxWorld κ α) : InboxEvent κ α → InboxWorld κ α
  | .read loaded =>
      let (inbox, items, coverageIds) := w.inbox.readInputInboxSnapshot loaded.rows
      { inbox := inbox
        snapshots := w.snapshots ++
          [{ items := items, coverageIds := coverageIds, before := w.inbox.accepted,
             batch := inbox.outstanding }] }
  | .acknowledge count =>
      match w.inbox.acknowledgeInputInbox count with
      | .error _ => w
      | .ok inbox => { w with inbox := inbox }

def play (w : InboxWorld κ α) (es : List (InboxEvent κ α)) : InboxWorld κ α := es.foldl next w

end InboxWorld

/-! ### One operation -/

namespace InputInbox

variable {inbox inbox' : InputInbox κ α} {count : ℤ}

/-- An accepted acknowledgement cuts the batch at its count. -/
theorem acknowledge_ok (h : inbox.acknowledgeInputInbox count = .ok inbox') :
    0 ≤ count ∧ count ≤ inbox.outstanding.length ∧
      inbox' = { inbox with
        accepted := inbox.accepted ++ inbox.outstanding.take count.toNat
        outstanding := inbox.outstanding.drop count.toNat } := by
  unfold acknowledgeInputInbox at h
  split at h
  · cases h
  · next hcount =>
    cases h
    exact ⟨by omega, by omega, rfl⟩

theorem acknowledge_of_le {n : ℕ} (h : n ≤ inbox.outstanding.length) :
    inbox.acknowledgeInputInbox n = .ok { inbox with
      accepted := inbox.accepted ++ inbox.outstanding.take n
      outstanding := inbox.outstanding.drop n } := by
  unfold acknowledgeInputInbox
  rw [if_neg (by omega), Int.toNat_natCast]

/-- An acknowledgement moves rows across the boundary and leaves the whole alone. -/
theorem rows_acknowledge (h : inbox.acknowledgeInputInbox count = .ok inbox') :
    inbox'.rows = inbox.rows ∧ inbox'.initialIds = inbox.initialIds ∧
      inbox.accepted <+: inbox'.accepted := by
  obtain ⟨-, -, rfl⟩ := acknowledge_ok h
  refine ⟨?_, rfl, prefix_append _ _⟩
  simp only [rows, append_assoc, take_append_drop]

/-- The inbox repeats no identity and shows no row of the first input. -/
structure Sound (inbox : InputInbox κ α) : Prop where
  nodup : (inbox.rows.map Prod.fst).Nodup
  disjoint : inbox.initialIds.Disjoint (inbox.rows.map Prod.fst)

theorem Sound.acknowledge (hi : inbox.Sound)
    (h : inbox.acknowledgeInputInbox count = .ok inbox') : inbox'.Sound := by
  obtain ⟨hrows, hinitial, -⟩ := rows_acknowledge h
  exact ⟨hrows ▸ hi.nodup, by rw [hinitial, hrows]; exact hi.disjoint⟩

variable [DecidableEq κ] {loaded : List (κ × α)}

/-- The rows a read adds behind the batch. -/
def fresh (inbox : InputInbox κ α) (loaded : List (κ × α)) : List (κ × α) :=
  loaded.filter fun row => row.1 ∉ inbox.initialIds ++ inbox.rows.map Prod.fst

theorem rows_read :
    (inbox.readInputInboxSnapshot loaded).1.rows = inbox.rows ++ inbox.fresh loaded := by
  simp only [readInputInboxSnapshot, extended, rows, fresh, map_append, append_assoc]

/-- Which identities are fresh: those of the loader that the inbox has not shown. -/
theorem mem_fresh {key : κ} (h : key ∈ (inbox.fresh loaded).map Prod.fst) :
    key ∈ loaded.map Prod.fst ∧ key ∉ inbox.initialIds ∧ key ∉ inbox.rows.map Prod.fst := by
  obtain ⟨row, hrow, rfl⟩ := List.mem_map.mp h
  obtain ⟨hmem, hseen⟩ := mem_filter.mp hrow
  rw [decide_eq_true_eq, mem_append, not_or] at hseen
  exact ⟨List.mem_map_of_mem hmem, hseen⟩

theorem Sound.read (hi : inbox.Sound) (hloaded : (loaded.map Prod.fst).Nodup) :
    (inbox.readInputInboxSnapshot loaded).1.Sound := by
  have hfresh : ((inbox.fresh loaded).map Prod.fst).Nodup :=
    hloaded.sublist (filter_sublist.map Prod.fst)
  constructor
  · rw [rows_read, map_append]
    refine hi.nodup.append hfresh ?_
    intro key hold hnew
    exact (mem_fresh hnew).2.2 hold
  · rw [rows_read, map_append]
    intro key hinitial hmem
    rcases mem_append.mp hmem with hold | hnew
    · exact hi.disjoint hinitial hold
    · exact (mem_fresh hnew).2.1 hinitial

end InputInbox

/-! ### Snapshots -/

/-- What a snapshot says about the inbox later on: its rows follow the rows accepted before it, and
its payloads and identities are theirs. -/
structure TakenFrom (inbox : InputInbox κ α) (snapshot : InboxSnapshot κ α) : Prop where
  items : snapshot.items = snapshot.batch.map Prod.snd
  coverage : snapshot.coverageIds =
    inbox.initialIds ++ snapshot.before.map Prod.fst ++ snapshot.batch.map Prod.fst
  accepted : snapshot.before <+: inbox.accepted
  rows : snapshot.before ++ snapshot.batch <+: inbox.rows

namespace InboxWorld

variable {w : InboxWorld κ α}

/-- What holds of an activation at any time. -/
structure Inv (w : InboxWorld κ α) : Prop where
  sound : w.inbox.Sound
  taken : ∀ snapshot ∈ w.snapshots, TakenFrom w.inbox snapshot

theorem inv_start (initialIds : List κ) : (start initialIds : InboxWorld κ α).Inv where
  sound := ⟨nodup_nil, disjoint_nil_right _⟩
  taken := by
    intro snapshot hmem
    cases hmem

variable [DecidableEq κ]

/-- **One step**: the rows grow at their end, the accepted ones too. -/
theorem step_grows (w : InboxWorld κ α) (e : InboxEvent κ α) :
    w.inbox.rows <+: (w.next e).inbox.rows ∧
      w.inbox.accepted <+: (w.next e).inbox.accepted ∧
      (w.next e).inbox.initialIds = w.inbox.initialIds := by
  cases e with
  | read loaded =>
    refine ⟨?_, prefix_rfl, rfl⟩
    have hrows : (w.next (.read loaded)).inbox.rows = w.inbox.rows ++ w.inbox.fresh loaded.rows :=
      InputInbox.rows_read
    exact ⟨_, hrows.symm⟩
  | acknowledge count =>
    simp only [next]
    split
    · exact ⟨prefix_rfl, prefix_rfl, rfl⟩
    · next inbox hok =>
      obtain ⟨hrows, hinitial, haccepted⟩ := InputInbox.rows_acknowledge hok
      exact ⟨hrows ▸ prefix_rfl, haccepted, hinitial⟩

/-- **A snapshot stays a part of the inbox** while the rows grow. -/
theorem takenFrom_next {snapshot : InboxSnapshot κ α} (h : TakenFrom w.inbox snapshot)
    (e : InboxEvent κ α) : TakenFrom (w.next e).inbox snapshot := by
  obtain ⟨hrows, haccepted, hinitial⟩ := w.step_grows e
  exact {
    items := h.items
    coverage := hinitial ▸ h.coverage
    accepted := h.accepted.trans haccepted
    rows := h.rows.trans hrows }

theorem Inv.next (hi : w.Inv) (e : InboxEvent κ α) : (w.next e).Inv := by
  cases e with
  | read loaded =>
    refine ⟨hi.sound.read loaded.distinct, ?_⟩
    intro snapshot hmem
    rcases mem_append.mp hmem with hold | hnew
    · exact takenFrom_next (hi.taken snapshot hold) (.read loaded)
    · -- the new snapshot shows the whole batch of the inbox it leaves
      rw [mem_singleton] at hnew
      subst hnew
      exact ⟨rfl, rfl, prefix_rfl, prefix_rfl⟩
  | acknowledge count =>
    have htaken := fun snapshot h =>
      takenFrom_next (hi.taken snapshot h) (.acknowledge count)
    revert htaken
    simp only [InboxWorld.next]
    split
    · exact fun htaken => ⟨hi.sound, htaken⟩
    · next inbox hok => exact fun htaken => ⟨hi.sound.acknowledge hok, htaken⟩

theorem Inv.play (hi : w.Inv) (es : List (InboxEvent κ α)) : (w.play es).Inv := by
  induction es generalizing w with
  | nil => exact hi
  | cons e es ih => exact ih (hi.next e)

/-- Over any run the rows grow at their end. -/
theorem rows_play (w : InboxWorld κ α) (es : List (InboxEvent κ α)) :
    w.inbox.rows <+: (w.play es).inbox.rows ∧
      (w.play es).inbox.initialIds = w.inbox.initialIds := by
  induction es generalizing w with
  | nil => exact ⟨prefix_rfl, rfl⟩
  | cons e es ih =>
    obtain ⟨hrows, -, hinitial⟩ := w.step_grows e
    obtain ⟨hrest, hsame⟩ := ih (w.next e)
    exact ⟨hrows.trans hrest, hsame.trans hinitial⟩

end InboxWorld

/-! ### What an acknowledgement accepts -/

namespace InputInbox

/-- The acknowledgement of `count` rows is accepted and moves `moved`, no more and no less. -/
def Moves (inbox : InputInbox κ α) (count : ℤ) (moved : List (κ × α)) : Prop :=
  ∃ rest, inbox.outstanding = moved ++ rest ∧
    inbox.acknowledgeInputInbox count =
      .ok { inbox with accepted := inbox.accepted ++ moved, outstanding := rest }

variable {inbox : InputInbox κ α} {snapshot : InboxSnapshot κ α}

/-- The rows accepted since the snapshot was read. -/
theorem exists_acceptedSince (ht : TakenFrom inbox snapshot) :
    ∃ since, inbox.accepted = snapshot.before ++ since ∧
      snapshot.batch <+: since ++ inbox.outstanding := by
  obtain ⟨since, hsince⟩ := ht.accepted
  refine ⟨since, hsince.symm, ?_⟩
  have hrows := ht.rows
  rw [rows, ← hsince, append_assoc] at hrows
  exact (prefix_append_right_inj _).mp hrows

variable [DecidableEq κ]

/-- The rows of a snapshot that have not been accepted. -/
def unaccepted (inbox : InputInbox κ α) (snapshot : InboxSnapshot κ α) : List (κ × α) :=
  snapshot.batch.filter fun row => row.1 ∉ inbox.acceptedSteeringIds

/-- **The unaccepted rows of a snapshot are the front of the batch**: as many as the snapshot has
beyond the rows accepted since. -/
theorem unaccepted_eq_take (hs : inbox.Sound) {since : List (κ × α)}
    (haccepted : inbox.accepted = snapshot.before ++ since)
    (hbatch : snapshot.batch <+: since ++ inbox.outstanding) :
    inbox.unaccepted snapshot =
      inbox.outstanding.take (snapshot.batch.length - since.length) := by
  have hsplit : snapshot.batch =
      since.take snapshot.batch.length ++
        inbox.outstanding.take (snapshot.batch.length - since.length) := by
    have h := prefix_iff_eq_take.mp hbatch
    rwa [take_append] at h
  have hdisjoint := (nodup_append'.mp (map_append ▸ hs.nodup :
    (inbox.accepted.map Prod.fst ++ inbox.outstanding.map Prod.fst).Nodup)).2.2
  -- what was accepted since is dropped, what is outstanding stays
  have hold : (since.take snapshot.batch.length).filter
      (fun row => row.1 ∉ inbox.acceptedSteeringIds) = [] := by
    rw [filter_eq_nil_iff]
    intro row hrow
    have hmem : row ∈ inbox.accepted := by
      rw [haccepted]
      exact mem_append_right _ (mem_of_mem_take hrow)
    rw [decide_eq_true_eq, not_not]
    exact List.mem_map_of_mem hmem
  have hnew : ∀ row ∈ inbox.outstanding.take (snapshot.batch.length - since.length),
      decide (row.1 ∉ inbox.acceptedSteeringIds) = true := by
    intro row hrow
    rw [decide_eq_true_eq]
    intro hmem
    exact hdisjoint hmem (List.mem_map_of_mem (mem_of_mem_take hrow))
  conv_lhs => rw [unaccepted, hsplit, filter_append, hold, nil_append]
  exact filter_eq_self.mpr hnew

/-- **An acknowledgement accepts the rows of its request exactly when none were accepted since.** -/
theorem moves_iff (hs : inbox.Sound) (ht : TakenFrom inbox snapshot) :
    inbox.Moves snapshot.items.length (inbox.unaccepted snapshot) ↔
      snapshot.items = [] ∨ inbox.accepted = snapshot.before := by
  obtain ⟨since, haccepted, hbatch⟩ := exists_acceptedSince ht
  have hlength : snapshot.items.length = snapshot.batch.length := by
    rw [ht.items, length_map]
  have hlong : snapshot.batch.length ≤ since.length + inbox.outstanding.length := by
    simpa only [length_append] using hbatch.length_le
  rw [unaccepted_eq_take hs haccepted hbatch, ← length_eq_zero_iff, hlength]
  constructor
  · rintro ⟨rest, hsplit, hack⟩
    -- the acknowledgement took as many rows as the request had, of which some were accepted before
    obtain ⟨-, hle, heq⟩ := acknowledge_ok hack
    rw [Int.toNat_natCast, InputInbox.mk.injEq] at heq
    have htake := congrArg List.length (append_cancel_left heq.2.1)
    rw [length_take, length_take] at htake
    rcases Nat.eq_zero_or_pos snapshot.batch.length with hzero | hpos
    · exact .inl hzero
    · have hnone : since = [] := by
        rw [← length_eq_zero_iff]
        omega
      exact .inr (by rw [haccepted, hnone, List.append_nil])
  · intro h
    have hcount : snapshot.batch.length - since.length = snapshot.batch.length ∧
        snapshot.batch.length ≤ inbox.outstanding.length := by
      rcases h with hzero | hsame
      · omega
      · have hnone : since = [] :=
          append_cancel_left (haccepted.symm.trans (hsame.trans (List.append_nil _).symm))
        rw [hnone, length_nil] at hlong ⊢
        omega
    refine ⟨inbox.outstanding.drop snapshot.batch.length, ?_, ?_⟩
    · rw [hcount.1, take_append_drop]
    · rw [hcount.1]
      exact acknowledge_of_le hcount.2

end InputInbox

/-! ### Coverage -/

open InputInbox in
/-- **Coverage of an activation's inputs.**  After any reads and acknowledgements no identity is
repeated, every snapshot consists of the outstanding rows behind the accepted ones and still names
the same rows, the rows only grow at their end, an acknowledgement moves the unaccepted rows of its
snapshot exactly when the snapshot is empty or nothing was accepted since its read, and a rejected
count changes nothing. -/
theorem inbox_coverage [DecidableEq κ] (initialIds : List κ) (es : List (InboxEvent κ α)) :
    let w := (InboxWorld.start initialIds).play es
    ((w.inbox.acceptedSteeringIds ++ w.inbox.outstandingInputInboxIds).Nodup ∧
      initialIds.Disjoint (w.inbox.acceptedSteeringIds ++ w.inbox.outstandingInputInboxIds) ∧
      (w.inbox.submittedInputInboxIds.Nodup ↔ initialIds.Nodup)) ∧
    (∀ more, w.inbox.accepted ++ w.inbox.outstanding <+:
      (w.play more).inbox.accepted ++ (w.play more).inbox.outstanding) ∧
    (∀ loaded : LoadedRows κ α,
      let (inbox, items, coverageIds) := w.inbox.readInputInboxSnapshot loaded.rows
      coverageIds = initialIds ++ inbox.acceptedSteeringIds ++ inbox.outstandingInputInboxIds ∧
        items = inbox.outstanding.map Prod.snd) ∧
    (∀ snapshot ∈ w.snapshots,
      snapshot.coverageIds =
          initialIds ++ snapshot.before.map Prod.fst ++ snapshot.batch.map Prod.fst ∧
        snapshot.items = snapshot.batch.map Prod.snd ∧
        snapshot.before ++ snapshot.batch <+: w.inbox.accepted ++ w.inbox.outstanding ∧
        (w.inbox.Moves snapshot.items.length (w.inbox.unaccepted snapshot) ↔
          snapshot.items = [] ∨ w.inbox.accepted = snapshot.before)) ∧
    (∀ count error, w.inbox.acknowledgeInputInbox count = .error error →
      w.next (.acknowledge count) = w) := by
  intro w
  have hi : w.Inv := (InboxWorld.inv_start initialIds).play es
  have hinitial : w.inbox.initialIds = initialIds :=
    ((InboxWorld.start initialIds).rows_play es).2
  have hids : w.inbox.acceptedSteeringIds ++ w.inbox.outstandingInputInboxIds =
      w.inbox.rows.map Prod.fst := (map_append).symm
  have hdisjoint := hi.sound.disjoint
  rw [hinitial] at hdisjoint
  refine ⟨⟨?_, ?_, ?_⟩, ?_, ?_, ?_, ?_⟩
  · rw [hids]
    exact hi.sound.nodup
  · rw [hids]
    exact hdisjoint
  · rw [submittedInputInboxIds, append_assoc, hids, hinitial, nodup_append']
    exact ⟨fun h => h.1, fun h => ⟨h, hi.sound.nodup, hdisjoint⟩⟩
  · intro more
    exact (w.rows_play more).1
  · intro loaded
    refine ⟨?_, rfl⟩
    rw [← hinitial]
    rfl
  · intro snapshot hmem
    have ht := hi.taken snapshot hmem
    exact ⟨hinitial ▸ ht.coverage, ht.items, ht.rows, moves_iff hi.sound ht⟩
  · intro count error herror
    simp only [InboxWorld.next, herror]

/-- Rows with the given identities, without payloads. -/
def exampleRows (keys : List ℕ) (h : keys.Nodup) : LoadedRows ℕ Unit where
  rows := keys.map fun key => (key, ())
  distinct := by
    rw [List.map_map]
    exact (List.map_id keys).symm ▸ h

/-- The second request is read while the first one is still unacknowledged, a third read extends the
batch, and both requests are acknowledged in order. -/
def exampleOverlap : List (InboxEvent ℕ Unit) :=
  [.read (exampleRows [1] (by decide)), .read (exampleRows [1, 2] (by decide)), .acknowledge 1,
    .read (exampleRows [1, 2, 3] (by decide))]

/-- **The acknowledgement of an overlapping request accepts a row it never contained**: of the
second request only row 2 was unaccepted, and row 3 is accepted with it. -/
theorem overlapping_request_accepts_later_row :
    let w := (InboxWorld.start []).play exampleOverlap
    ∃ snapshot, w.snapshots[1]? = some snapshot ∧ snapshot.coverageIds = [1, 2] ∧
      w.inbox.unaccepted snapshot = [(2, ())] ∧
      (∃ inbox, w.inbox.acknowledgeInputInbox snapshot.items.length = .ok inbox ∧
        inbox.acceptedSteeringIds = [1, 2, 3]) ∧
      ¬ w.inbox.Moves snapshot.items.length (w.inbox.unaccepted snapshot) := by
  refine ⟨_, rfl, rfl, rfl, ⟨_, rfl, rfl⟩, ?_⟩
  rintro ⟨rest, -, hack⟩
  cases hack

end HaskellAgent
