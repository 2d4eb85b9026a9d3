import HaskellAgent.Lib.FinMap
import HaskellAgent.Lib.Machine
import HaskellAgent.Loop.Input
import Mathlib.Data.Fintype.Card

/-!
# The conversation store

The live conversation of a root agent is held by one store.  A committed transcript stays resident
until it is durable; then it is evicted and only a checkpoint is kept, from which a read scope loads
it again.  Overlapping read scopes share a hydrated transcript by counting its readers, and the last
one drops it.  Delayed evictions and releases name the generation they are about.

Every operation runs under the lock of the store, the load of a checkpoint included, so the calls of
several threads interleave by whole operations.
-/

open List Option Machine

namespace HaskellAgent
namespace ConversationStore

/-- `TranscriptGeneration`: a `Word64`, whose successor wraps around. -/
abbrev TranscriptGeneration := UInt64

structure BackendContinuation where
  continuationProvider : Text
  continuationToken : Text
  deriving DecidableEq

/-- A checkpoint of the backend, with items `α` and provider states `π`. -/
structure BackendSnapshot (α π : Type) where
  backendItems : List α
  backendRevision : UInt64
  backendContinuation : Option BackendContinuation
  backendProviderState : Option π
  deriving DecidableEq

inductive ResidentSource (κ : Type)
  | committedResident
  | hydratedResident (checkpoint : κ) (readers : ℕ)
  deriving DecidableEq

inductive TranscriptState (α κ : Type)
  | residentTranscript (items : List α) (source : ResidentSource κ)
  | coldTranscript (checkpoint : κ)
  deriving DecidableEq

structure ConversationState (α κ π ι : Type) where
  stateGeneration : TranscriptGeneration
  stateTranscript : TranscriptState α κ
  stateContinuation : Option BackendContinuation
  stateProviderState : Option π
  stateAttachments : List ι
  deriving DecidableEq

variable {α κ π ι : Type}

open TranscriptState ResidentSource

/-! ### The lifecycle of a transcript -/

inductive Acquisition (α κ π ι : Type)
  | acquired (state : ConversationState α κ π ι) (release : Bool) (items : List α)
  | loadCheckpoint (checkpoint : κ)

def acquireTranscript (state : ConversationState α κ π ι) : Acquisition α κ π ι :=
  match state.stateTranscript with
  | residentTranscript items committedResident => .acquired state false items
  | residentTranscript items (hydratedResident checkpoint readers) =>
      .acquired
        { state with
          stateTranscript := residentTranscript items (hydratedResident checkpoint (readers + 1)) }
        true items
  | coldTranscript checkpoint => .loadCheckpoint checkpoint

def hydratedTranscript (checkpoint : κ) (items : List α) (state : ConversationState α κ π ι) :
    ConversationState α κ π ι :=
  { state with stateTranscript := residentTranscript items (hydratedResident checkpoint 1) }

def releaseHydratedTranscript (expectedGeneration : TranscriptGeneration)
    (state : ConversationState α κ π ι) : ConversationState α κ π ι :=
  if state.stateGeneration ≠ expectedGeneration then state
  else match state.stateTranscript with
    | residentTranscript _ (hydratedResident checkpoint 1) =>
        { state with stateTranscript := coldTranscript checkpoint }
    | residentTranscript items (hydratedResident checkpoint readers) =>
        { state with
          stateTranscript := residentTranscript items (hydratedResident checkpoint (readers - 1)) }
    | _ => state

def nextGeneration (generation : TranscriptGeneration) : TranscriptGeneration := generation + 1

def commitTranscript (transcript : List α) (state : ConversationState α κ π ι) :
    ConversationState α κ π ι × TranscriptGeneration :=
  let generation := nextGeneration state.stateGeneration
  ({ state with
      stateGeneration := generation
      stateTranscript := residentTranscript transcript committedResident
      stateContinuation := none
      stateProviderState := none },
    generation)

/-- The revision of a snapshot is the generation its commit starts. -/
def commitBackendState (candidate : BackendSnapshot α π) (state : ConversationState α κ π ι) :
    ConversationState α κ π ι × BackendSnapshot α π :=
  let generation := nextGeneration state.stateGeneration
  let committed := { candidate with backendRevision := generation }
  ({ state with
      stateGeneration := generation
      stateTranscript := residentTranscript committed.backendItems committedResident
      stateContinuation := committed.backendContinuation
      stateProviderState := committed.backendProviderState },
    committed)

/-- The answer says whether the transcript became cold. -/
def evictTranscript (expectedGeneration : TranscriptGeneration) (checkpoint : κ)
    (state : ConversationState α κ π ι) : ConversationState α κ π ι × Bool :=
  match state.stateTranscript with
  | residentTranscript _ committedResident =>
      if state.stateGeneration = expectedGeneration then
        ({ state with stateTranscript := coldTranscript checkpoint }, true)
      else (state, false)
  | residentTranscript items (hydratedResident _ readers) =>
      -- the readers keep their items, and the last of them installs the new checkpoint
      if state.stateGeneration = expectedGeneration then
        ({ state with
            stateTranscript := residentTranscript items (hydratedResident checkpoint readers) },
          false)
      else (state, false)
  | coldTranscript _ => (state, false)

def retargetCheckpoint (checkpoint : κ) (state : ConversationState α κ π ι) :
    ConversationState α κ π ι :=
  { state with
    stateTranscript := match state.stateTranscript with
      | coldTranscript _ => coldTranscript checkpoint
      | residentTranscript items (hydratedResident _ readers) =>
          residentTranscript items (hydratedResident checkpoint readers)
      | residentTranscript items committedResident => residentTranscript items committedResident }

def resetState (state : ConversationState α κ π ι) : ConversationState α κ π ι :=
  { state with
    stateGeneration := nextGeneration state.stateGeneration
    stateTranscript := residentTranscript [] committedResident
    stateContinuation := none
    stateProviderState := none
    stateAttachments := [] }

def openAiContinuation (token : Option Text) : Option BackendContinuation :=
  token.map fun t => { continuationProvider := "openai.responses".toList, continuationToken := t }

def snapshotFromState (state : ConversationState α κ π ι) (items : List α) :
    BackendSnapshot α π where
  backendItems := items
  backendRevision := state.stateGeneration
  backendContinuation := state.stateContinuation
  backendProviderState := state.stateProviderState

def newConversationStore (previousResponseId : Option Text) (transcript : List α)
    (attachments : List ι) : ConversationState α κ π ι where
  stateGeneration := 0
  stateTranscript := residentTranscript transcript committedResident
  stateContinuation := openAiContinuation previousResponseId
  stateProviderState := none
  stateAttachments := attachments

def newColdConversationStore (previousResponseId : Option Text) (checkpoint : κ)
    (attachments : List ι) : ConversationState α κ π ι where
  stateGeneration := 0
  stateTranscript := coldTranscript checkpoint
  stateContinuation := openAiContinuation previousResponseId
  stateProviderState := none
  stateAttachments := attachments

/-! ### The variable the store stands for -/

/-- A variable and the scopes that have read it, each with what it read. -/
structure Variable (β : Type) where
  value : β
  scopes : FinMap ℕ β

inductive VariableOp (β : Type)
  | read (scope : ℕ)
  | close (scope : ℕ)
  | write (value : β)
  | keep

def Variable.apply {β : Type} (var : Variable β) : VariableOp β → Variable β
  | .read scope => { var with scopes := var.scopes.insert scope var.value }
  | .close scope => { var with scopes := var.scopes.delete scope }
  | .write value => { var with value := value }
  | .keep => var

/-! ### The calls of the store -/

/-- An open scope of `withConversationBackendState`. -/
structure ReadScope (α π : Type) where
  generation : TranscriptGeneration
  releaseHydration : Bool
  snapshot : BackendSnapshot α π
  deriving DecidableEq

variable (load : κ → List α)

/-- The `acquire` of a read scope, whose load succeeds. -/
def acquire (state : ConversationState α κ π ι) : ConversationState α κ π ι × ReadScope α π :=
  match acquireTranscript state with
  | .acquired resident releaseHydration items =>
      (resident,
        { generation := state.stateGeneration
          releaseHydration
          snapshot := snapshotFromState state items })
  | .loadCheckpoint cold =>
      let items := load cold
      (hydratedTranscript cold items state,
        { generation := state.stateGeneration
          releaseHydration := true
          snapshot := snapshotFromState state items })

/-- The `release` of a read scope. -/
def release (scope : ReadScope α π) (state : ConversationState α κ π ι) :
    ConversationState α κ π ι :=
  if scope.releaseHydration then releaseHydratedTranscript scope.generation state else state

structure World (α κ π ι : Type) where
  store : ConversationState α κ π ι
  scopes : FinMap ℕ (ReadScope α π)
  /-- History: the generations with their transcripts, the latest first. -/
  commits : List (TranscriptGeneration × List α)

/-- What a thread does to the store. -/
inductive Call (α κ π ι : Type)
  | beginScope (scope : ℕ)
  /-- The load of a cold checkpoint fails, and the lock restores the state. -/
  | failLoad
  | endScope (scope : ℕ)
  | commitConversationTranscript (transcript : List α)
  | commitConversationBackendState (candidate : BackendSnapshot α π)
  | evictConversationTranscript (expectedGeneration : TranscriptGeneration) (checkpoint : κ)
  | retargetConversationCheckpoint (checkpoint : κ)
  | resetConversationStore
  | writeConversationPreviousResponseId (value : Option Text)
  | modifyConversationAttachments (update : List ι → List ι)

/-- A call that starts a generation. -/
def World.commit (w : World α κ π ι) (store : ConversationState α κ π ι) (transcript : List α) :
    World α κ π ι :=
  { w with store, commits := (store.stateGeneration, transcript) :: w.commits }

def step (w : World α κ π ι) : Call α κ π ι → Option (World α κ π ι)
  | .beginScope scope =>
      if w.scopes.lookup scope = none then
        let (store, opened) := acquire load w.store
        some { w with store, scopes := w.scopes.insert scope opened }
      else none
  | .failLoad =>
      match acquireTranscript w.store with
      | .acquired .. => none
      | .loadCheckpoint _ => some w
  | .endScope scope =>
      (w.scopes.lookup scope).map fun opened =>
        { w with store := release opened w.store, scopes := w.scopes.delete scope }
  | .commitConversationTranscript transcript =>
      some (w.commit (commitTranscript transcript w.store).1 transcript)
  | .commitConversationBackendState candidate =>
      some (w.commit (commitBackendState candidate w.store).1 candidate.backendItems)
  | .evictConversationTranscript expectedGeneration checkpoint =>
      some { w with store := (evictTranscript expectedGeneration checkpoint w.store).1 }
  | .retargetConversationCheckpoint checkpoint =>
      some { w with store := retargetCheckpoint checkpoint w.store }
  | .resetConversationStore => some (w.commit (resetState w.store) [])
  | .writeConversationPreviousResponseId value =>
      some { w with store := { w.store with stateContinuation := openAiContinuation value } }
  | .modifyConversationAttachments update =>
      some { w with
        store := { w.store with stateAttachments := update w.store.stateAttachments } }

/-- The transcript of a state, loaded if it is cold. -/
def transcriptOf (state : ConversationState α κ π ι) : List α :=
  match state.stateTranscript with
  | residentTranscript items _ => items
  | coldTranscript checkpoint => load checkpoint

/-- The checkpoint of a cold or hydrated transcript. -/
def checkpointOf (state : ConversationState α κ π ι) : Option κ :=
  match state.stateTranscript with
  | residentTranscript _ committedResident => none
  | residentTranscript _ (hydratedResident checkpoint _) | coldTranscript checkpoint =>
    some checkpoint

def World.start (store : ConversationState α κ π ι) : World α κ π ι where
  store := store
  scopes := .empty
  commits := [(store.stateGeneration, transcriptOf load store)]

/-- A world in which a store has just been made. -/
def Initial (w : World α κ π ι) : Prop :=
  (∃ previous transcript attachments,
    w = .start load (newConversationStore previous transcript attachments)) ∨
  ∃ previous checkpoint attachments,
    w = .start load (newColdConversationStore previous checkpoint attachments)

/-- What the callers owe: an eviction's checkpoint loads the transcript of the generation it names,
and a retarget's loads what the checkpoint it replaces does. -/
def CheckpointsAgree (w : World α κ π ι) : Call α κ π ι → Prop
  | .evictConversationTranscript expectedGeneration checkpoint =>
      ∀ commit ∈ w.commits, commit.1 = expectedGeneration → load checkpoint = commit.2
  | .retargetConversationCheckpoint checkpoint =>
      ∀ replaced ∈ checkpointOf w.store, load checkpoint = load replaced
  | _ => True

/-- A call that starts a generation starts at most the `2 ^ 64`th. -/
def GenerationsLeft (w : World α κ π ι) : Call α κ π ι → Prop
  | .commitConversationTranscript _ => w.commits.length < 2 ^ 64
  | .commitConversationBackendState _ => w.commits.length < 2 ^ 64
  | .resetConversationStore => w.commits.length < 2 ^ 64
  | _ => True

instance [DecidableEq α] (w : World α κ π ι) :
    ∀ call, Decidable (CheckpointsAgree load w call ∧ GenerationsLeft w call)
  | .evictConversationTranscript expectedGeneration checkpoint =>
      inferInstanceAs (Decidable ((∀ commit ∈ w.commits, commit.1 = expectedGeneration →
        load checkpoint = commit.2) ∧ True))
  | .retargetConversationCheckpoint checkpoint =>
      inferInstanceAs (Decidable
        ((∀ replaced ∈ checkpointOf w.store, load checkpoint = load replaced) ∧ True))
  | .commitConversationTranscript _ | .commitConversationBackendState _
  | .resetConversationStore => inferInstanceAs (Decidable (True ∧ w.commits.length < 2 ^ 64))
  | .beginScope _ | .failLoad | .endScope _ | .writeConversationPreviousResponseId _
  | .modifyConversationAttachments _ => inferInstanceAs (Decidable (True ∧ True))

def view (w : World α κ π ι) : Variable (List α) where
  value := transcriptOf load w.store
  scopes := w.scopes.map fun scope => scope.snapshot.backendItems

/-- What a call does to the variable. -/
def operation : Call α κ π ι → VariableOp (List α)
  | .beginScope scope => .read scope
  | .endScope scope => .close scope
  | .commitConversationTranscript transcript => .write transcript
  | .commitConversationBackendState candidate => .write candidate.backendItems
  | .resetConversationStore => .write []
  | _ => .keep

/-- The open scopes that count as readers of the transcript now hydrated. -/
def readerScopes (w : World α κ π ι) : Finset ℕ :=
  w.scopes.keysWith fun scope =>
    scope.releaseHydration && scope.generation == w.store.stateGeneration

/-- The reader count of a hydrated transcript; no other transcript has readers. -/
def readersOf (state : ConversationState α κ π ι) : ℕ :=
  match state.stateTranscript with
  | residentTranscript _ (hydratedResident _ readers) => readers
  | _ => 0

/-- A hydrated transcript is what its checkpoint loads, and somebody reads it. -/
def Backed (state : ConversationState α κ π ι) : Prop :=
  ∀ items checkpoint readers,
    state.stateTranscript = residentTranscript items (hydratedResident checkpoint readers) →
      load checkpoint = items ∧ 0 < readers

/-! ### One lemma for each operation on the state -/

variable {load} {state : ConversationState α κ π ι} {scope : ReadScope α π} {checkpoint : κ}
  {generation : TranscriptGeneration}

/-- The three shapes of a transcript. -/
theorem transcript_cases (state : ConversationState α κ π ι) :
    (∃ items, state.stateTranscript = residentTranscript items committedResident) ∨
    (∃ items checkpoint readers,
      state.stateTranscript = residentTranscript items (hydratedResident checkpoint readers)) ∨
    ∃ checkpoint, state.stateTranscript = coldTranscript checkpoint := by
  cases state.stateTranscript with
  | residentTranscript items source =>
    cases source with
    | committedResident => exact .inl ⟨items, rfl⟩
    | hydratedResident checkpoint readers => exact .inr (.inl ⟨items, checkpoint, readers, rfl⟩)
  | coldTranscript checkpoint => exact .inr (.inr ⟨checkpoint, rfl⟩)

/-- What a read scope takes, and what it leaves of the store. -/
structure Acquires (load : κ → List α) (state state' : ConversationState α κ π ι)
    (opened : ReadScope α π) : Prop where
  transcript : transcriptOf load state' = transcriptOf load state
  generation : state'.stateGeneration = state.stateGeneration
  readers : readersOf state' = readersOf state + if opened.releaseHydration then 1 else 0
  backed : Backed load state → Backed load state'
  opening : opened.generation = state.stateGeneration
  snapshot : opened.snapshot = snapshotFromState state (transcriptOf load state)

theorem acquires_acquire (load : κ → List α) (state : ConversationState α κ π ι) :
    Acquires load state (acquire load state).1 (acquire load state).2 := by
  rcases transcript_cases state with ⟨items, h⟩ | ⟨items, checkpoint, readers, h⟩ | ⟨checkpoint, h⟩
  · constructor <;> simp [acquire, acquireTranscript, transcriptOf, readersOf, h]
  · have hbacked : Backed load state → Backed load (acquire load state).1 := by
      intro hb items' checkpoint' readers' h'
      simp only [acquire, acquireTranscript, h, residentTranscript.injEq,
        hydratedResident.injEq] at h'
      obtain ⟨rfl, rfl, rfl⟩ := h'
      exact ⟨(hb _ _ _ h).1, Nat.succ_pos _⟩
    constructor <;> first
      | exact hbacked
      | simp [acquire, acquireTranscript, transcriptOf, readersOf, h]
  · have hbacked : Backed load (acquire load state).1 := by
      intro items' checkpoint' readers' h'
      simp only [acquire, acquireTranscript, h, hydratedTranscript, residentTranscript.injEq,
        hydratedResident.injEq] at h'
      obtain ⟨rfl, rfl, rfl⟩ := h'
      exact ⟨rfl, Nat.one_pos⟩
    constructor <;> first
      | exact fun _ => hbacked
      | simp [acquire, acquireTranscript, hydratedTranscript, transcriptOf, readersOf, h]

/-- **A release that is stale, or owes nothing, changes nothing.** -/
theorem release_of_not_reader
    (h : (scope.releaseHydration && scope.generation == state.stateGeneration) = false) :
    release scope state = state := by
  unfold release
  split
  · next hrelease =>
    rw [hrelease, Bool.true_and, beq_eq_false_iff_ne] at h
    rw [releaseHydratedTranscript, if_pos (Ne.symm h)]
  · rfl

/-- What the release of a reader leaves of the store. -/
structure Releases (load : κ → List α) (state state' : ConversationState α κ π ι) : Prop where
  transcript : transcriptOf load state' = transcriptOf load state
  generation : state'.stateGeneration = state.stateGeneration
  readers : readersOf state' = readersOf state - 1
  backed : Backed load state'
  checkpoint : checkpointOf state' = checkpointOf state

theorem releases_of_reader
    (h : (scope.releaseHydration && scope.generation == state.stateGeneration) = true)
    (hb : Backed load state) : Releases load state (release scope state) := by
  rw [Bool.and_eq_true, beq_iff_eq] at h
  have hrel : release scope state = releaseHydratedTranscript state.stateGeneration state := by
    rw [release, if_pos h.1, h.2]
  rw [hrel]
  rcases transcript_cases state with
    ⟨items, ht⟩ | ⟨items, checkpoint, readers, ht⟩ | ⟨checkpoint, ht⟩
  · have hsame : releaseHydratedTranscript state.stateGeneration state = state := by
      simp [releaseHydratedTranscript, ht]
    rw [hsame]
    exact ⟨rfl, rfl, by simp [readersOf, ht], hb, rfl⟩
  · obtain ⟨hload, hpos⟩ := hb _ _ _ ht
    by_cases hone : readers = 1
    · -- the last reader drops the transcript its checkpoint can load again
      subst hone
      constructor
      · simp [releaseHydratedTranscript, transcriptOf, ht, hload]
      · simp [releaseHydratedTranscript, ht]
      · simp [releaseHydratedTranscript, readersOf, ht]
      · intro items' checkpoint' readers' h'
        simp [releaseHydratedTranscript, ht] at h'
      · simp [releaseHydratedTranscript, checkpointOf, ht]
    · have hsub : releaseHydratedTranscript state.stateGeneration state =
          { state with
            stateTranscript :=
              residentTranscript items (hydratedResident checkpoint (readers - 1)) } := by
        simp [releaseHydratedTranscript, ht]
      rw [hsub]
      constructor
      · simp [transcriptOf, ht]
      · rfl
      · simp [readersOf, ht]
      · intro items' checkpoint' readers' h'
        simp only [residentTranscript.injEq, hydratedResident.injEq] at h'
        obtain ⟨rfl, rfl, rfl⟩ := h'
        exact ⟨hload, by omega⟩
      · simp [checkpointOf, ht]
  · have hsame : releaseHydratedTranscript state.stateGeneration state = state := by
      simp [releaseHydratedTranscript, ht]
    rw [hsame]
    exact ⟨rfl, rfl, by simp [readersOf, ht], hb, rfl⟩

/-- **A stale eviction changes nothing.** -/
theorem evictTranscript_of_ne (h : state.stateGeneration ≠ generation) :
    evictTranscript generation checkpoint state = (state, false) := by
  rcases transcript_cases state with ⟨items, ht⟩ | ⟨items, cp, readers, ht⟩ | ⟨cp, ht⟩ <;>
    simp [evictTranscript, ht, h]

/-- What keeps the transcript and its readers, whatever it does to the checkpoint. -/
structure Keeps (load : κ → List α) (state state' : ConversationState α κ π ι) : Prop where
  transcript : transcriptOf load state' = transcriptOf load state
  generation : state'.stateGeneration = state.stateGeneration
  readers : readersOf state' = readersOf state
  backed : Backed load state → Backed load state'

theorem keeps_of_eq {state' : ConversationState α κ π ι}
    (ht : state'.stateTranscript = state.stateTranscript)
    (hg : state'.stateGeneration = state.stateGeneration) : Keeps load state state' where
  transcript := by rw [transcriptOf, ht, transcriptOf]
  generation := hg
  readers := by rw [readersOf, ht, readersOf]
  backed hb := by
    intro items checkpoint readers h
    exact hb items checkpoint readers (ht ▸ h)

/-- An eviction keeps the transcript, if its checkpoint loads the transcript it evicts. -/
theorem keeps_evictTranscript
    (h : state.stateGeneration = generation → load checkpoint = transcriptOf load state) :
    Keeps load state (evictTranscript generation checkpoint state).1 := by
  by_cases hg : state.stateGeneration = generation
  · have hload := h hg
    rcases transcript_cases state with ⟨items, ht⟩ | ⟨items, cp, readers, ht⟩ | ⟨cp, ht⟩
    · have hcold : (evictTranscript generation checkpoint state).1 =
          { state with stateTranscript := coldTranscript checkpoint } := by
        simp [evictTranscript, ht, hg]
      rw [hcold]
      refine ⟨hload, rfl, by simp [readersOf, ht], fun _ => ?_⟩
      intro items' checkpoint' readers' h'
      simp at h'
    · have hswap : (evictTranscript generation checkpoint state).1 =
          { state with
            stateTranscript := residentTranscript items (hydratedResident checkpoint readers) } := by
        simp [evictTranscript, ht, hg]
      rw [hswap]
      refine ⟨by simp [transcriptOf, ht], rfl, by simp [readersOf, ht], fun hb => ?_⟩
      intro items' checkpoint' readers' h'
      simp only [residentTranscript.injEq, hydratedResident.injEq] at h'
      obtain ⟨rfl, rfl, rfl⟩ := h'
      refine ⟨?_, (hb _ _ _ ht).2⟩
      rw [hload, transcriptOf, ht]
    · have hsame : evictTranscript generation checkpoint state = (state, false) := by
        simp [evictTranscript, ht]
      rw [hsame]
      exact keeps_of_eq rfl rfl
  · rw [evictTranscript_of_ne hg]
    exact keeps_of_eq rfl rfl

/-- A retarget keeps the transcript, if the new checkpoint loads what the old one does. -/
theorem keeps_retargetCheckpoint
    (h : ∀ replaced ∈ checkpointOf state, load checkpoint = load replaced) :
    Keeps load state (retargetCheckpoint checkpoint state) := by
  rcases transcript_cases state with ⟨items, ht⟩ | ⟨items, cp, readers, ht⟩ | ⟨cp, ht⟩
  · exact keeps_of_eq (by simp [retargetCheckpoint, ht]) rfl
  · have hload : load checkpoint = load cp := h cp (by simp [checkpointOf, ht])
    refine ⟨by simp [transcriptOf, retargetCheckpoint, ht], rfl,
      by simp [readersOf, retargetCheckpoint, ht], fun hb => ?_⟩
    intro items' checkpoint' readers' h'
    simp only [retargetCheckpoint, ht, residentTranscript.injEq, hydratedResident.injEq] at h'
    obtain ⟨rfl, rfl, rfl⟩ := h'
    obtain ⟨hitems, hpos⟩ := hb _ _ _ ht
    exact ⟨hload.trans hitems, hpos⟩
  · have hload : load checkpoint = load cp := h cp (by simp [checkpointOf, ht])
    refine ⟨by simp [transcriptOf, retargetCheckpoint, ht, hload], rfl,
      by simp [readersOf, retargetCheckpoint, ht], fun hb => ?_⟩
    intro items' checkpoint' readers' h'
    simp [retargetCheckpoint, ht] at h'

/-! ### The invariant -/

/-- The commits are of distinct generations up to the current one, which has the transcript the
store holds, and the readers counted are the open scopes that must release it. -/
structure StoreInvariant (load : κ → List α) (w : World α κ π ι) : Prop where
  latest : w.commits.head? = some (w.store.stateGeneration, transcriptOf load w.store)
  numbered : w.commits.length = w.store.stateGeneration.toNat + 1
  bounded : ∀ commit ∈ w.commits, commit.1.toNat ≤ w.store.stateGeneration.toNat
  distinct : (w.commits.map Prod.fst).Nodup
  scopes : ∀ i opened, w.scopes.lookup i = some opened →
    opened.generation.toNat ≤ w.store.stateGeneration.toNat
  readers : readersOf w.store = (readerScopes w).card
  backed : Backed load w.store

variable {w w' w₀ : World α κ π ι}

theorem start_invariant (h : Initial load w) : StoreInvariant load w := by
  have hstart : ∃ store : ConversationState α κ π ι, w = .start load store ∧
      store.stateGeneration = 0 ∧ readersOf store = 0 ∧ Backed load store := by
    rcases h with ⟨previous, transcript, attachments, rfl⟩ | ⟨previous, checkpoint, attachments, rfl⟩
    · exact ⟨_, rfl, rfl, rfl, fun _ _ _ h => by simp [newConversationStore] at h⟩
    · exact ⟨_, rfl, rfl, rfl, fun _ _ _ h => by simp [newColdConversationStore] at h⟩
  obtain ⟨store, rfl, hgen, hreaders, hbacked⟩ := hstart
  refine ⟨rfl, ?_, ?_, ?_, ?_, ?_, hbacked⟩
  · simp [World.start, hgen]
  · simp [World.start]
  · simp [World.start]
  · intro i opened h
    simp [World.start] at h
  · have hnone : readerScopes (World.start load store : World α κ π ι) = ∅ := by
      ext i
      simp [readerScopes, World.start, FinMap.mem_keysWith]
    rw [hnone]
    exact hreaders

variable {store : ConversationState α κ π ι}

section

variable (hI : StoreInvariant load w)
include hI

/-- A step that keeps the transcript keeps the invariant. -/
theorem StoreInvariant.of_keeps (hk : Keeps load w.store store) :
    StoreInvariant load { w with store } where
  latest := by
    rw [hk.generation, hk.transcript]
    exact hI.latest
  numbered := by
    rw [hk.generation]
    exact hI.numbered
  bounded := by
    rw [hk.generation]
    exact hI.bounded
  distinct := hI.distinct
  scopes := by
    rw [hk.generation]
    exact hI.scopes
  readers := by
    have hsame : readerScopes ({ w with store } : World α κ π ι) = readerScopes w := by
      rw [readerScopes, readerScopes, hk.generation]
    rw [hsame, hk.readers]
    exact hI.readers
  backed := hk.backed hI.backed

/-- The successor of a generation, while generations are left. -/
theorem toNat_nextGeneration (hleft : w.commits.length < 2 ^ 64) :
    (nextGeneration w.store.stateGeneration).toNat = w.store.stateGeneration.toNat + 1 := by
  have hlt : w.store.stateGeneration.toNat + 1 < 2 ^ 64 := hI.numbered ▸ hleft
  rw [nextGeneration, UInt64.toNat_add, UInt64.toNat_one]
  exact Nat.mod_eq_of_lt hlt

/-- **A new generation is none of the earlier ones.** -/
theorem nextGeneration_not_mem (hleft : w.commits.length < 2 ^ 64) :
    nextGeneration w.store.stateGeneration ∉ w.commits.map Prod.fst := by
  intro hmem
  obtain ⟨commit, hcommit, heq⟩ := List.mem_map.mp hmem
  have hle : commit.1.toNat ≤ w.store.stateGeneration.toNat := hI.bounded commit hcommit
  rw [heq, toNat_nextGeneration hI hleft] at hle
  omega

/-- A step that starts a generation keeps the invariant while generations are left. -/
theorem StoreInvariant.of_commit {transcript : List α} (hleft : w.commits.length < 2 ^ 64)
    (hg : store.stateGeneration = nextGeneration w.store.stateGeneration)
    (ht : store.stateTranscript = residentTranscript transcript committedResident) :
    StoreInvariant load (w.commit store transcript) := by
  have hnext := toNat_nextGeneration hI hleft
  have hscopes : ∀ i opened, w.scopes.lookup i = some opened →
      opened.generation.toNat < store.stateGeneration.toNat := by
    intro i opened hi
    rw [hg, hnext]
    exact Nat.lt_succ_of_le (hI.scopes i opened hi)
  -- the open scopes are of earlier generations, so nobody reads the new one yet
  have hnone : readerScopes (w.commit store transcript) = ∅ := by
    ext i
    simp only [readerScopes, FinMap.mem_keysWith, Finset.notMem_empty, iff_false, Bool.and_eq_true,
      beq_iff_eq]
    rintro ⟨opened, hi, -, heq⟩
    have hlt := hscopes i opened hi
    rw [heq] at hlt
    exact lt_irrefl _ hlt
  refine ⟨?_, ?_, ?_, ?_, ?_, ?_, ?_⟩
  · simp [World.commit, transcriptOf, ht]
  · simp [World.commit, hI.numbered, hg, hnext]
  · intro commit hmem
    rcases mem_cons.mp hmem with rfl | hmem
    · exact le_refl _
    · have hle := hI.bounded commit hmem
      simp only [World.commit, hg, hnext]
      omega
  · have hfresh := nextGeneration_not_mem hI hleft
    simp only [World.commit, map_cons, hg]
    exact nodup_cons.mpr ⟨hfresh, hI.distinct⟩
  · intro i opened hi
    exact le_of_lt (hscopes i opened hi)
  · rw [hnone]
    simp [World.commit, readersOf, ht]
  · intro items checkpoint readers h
    simp [World.commit, ht] at h

end

theorem readerScopes_insert {i : ℕ} {opened : ReadScope α π}
    (hg : store.stateGeneration = w.store.stateGeneration) :
    readerScopes { w with store, scopes := w.scopes.insert i opened } =
      if opened.releaseHydration && opened.generation == w.store.stateGeneration then
        insert i ((readerScopes w).erase i)
      else (readerScopes w).erase i := by
  simp only [readerScopes, hg]
  exact FinMap.keysWith_insert

theorem readerScopes_delete {i : ℕ} (hg : store.stateGeneration = w.store.stateGeneration) :
    readerScopes { w with store, scopes := w.scopes.delete i } = (readerScopes w).erase i := by
  simp only [readerScopes, hg]
  exact FinMap.keysWith_delete

theorem beginScope_invariant {i : ℕ} (hI : StoreInvariant load w)
    (hnew : w.scopes.lookup i = none) :
    StoreInvariant load { w with
      store := (acquire load w.store).1
      scopes := w.scopes.insert i (acquire load w.store).2 } := by
  have ha := acquires_acquire load w.store
  refine ⟨?_, ?_, ?_, hI.distinct, ?_, ?_, ha.backed hI.backed⟩
  · rw [ha.generation, ha.transcript]
    exact hI.latest
  · rw [ha.generation]
    exact hI.numbered
  · rw [ha.generation]
    exact hI.bounded
  · intro j opened hj
    rw [ha.generation]
    rw [FinMap.lookup_insert] at hj
    split at hj
    · rw [← some.inj hj, ha.opening]
    · exact hI.scopes j opened hj
  · -- the new scope is a reader exactly if the transcript it acquired is counted
    have hold : i ∉ readerScopes w := FinMap.not_mem_keysWith_of_lookup_eq_none hnew
    rw [ha.readers, hI.readers, readerScopes_insert ha.generation, ha.opening, BEq.rfl,
      Bool.and_true, Finset.erase_eq_of_notMem hold]
    split
    · rw [Finset.card_insert_of_notMem hold]
    · rfl

theorem endScope_invariant {i : ℕ} {opened : ReadScope α π} (hI : StoreInvariant load w)
    (hi : w.scopes.lookup i = some opened) :
    StoreInvariant load { w with
      store := release opened w.store, scopes := w.scopes.delete i } := by
  -- the other scopes stay as they are
  have hscopes : ∀ j opened', (w.scopes.delete i).lookup j = some opened' →
      opened'.generation.toNat ≤ w.store.stateGeneration.toNat := by
    intro j opened' hj
    rw [FinMap.lookup_delete] at hj
    split at hj
    · cases hj
    · exact hI.scopes j opened' hj
  cases hreader : opened.releaseHydration && opened.generation == w.store.stateGeneration with
  | false =>
    have hold : i ∉ readerScopes w := by
      intro hmem
      obtain ⟨opened', hi', hp⟩ := FinMap.mem_keysWith.mp hmem
      rw [hi] at hi'
      rw [← some.inj hi', hreader] at hp
      cases hp
    rw [release_of_not_reader hreader]
    refine ⟨hI.latest, hI.numbered, hI.bounded, hI.distinct, hscopes, ?_, hI.backed⟩
    rw [readerScopes_delete rfl, Finset.erase_eq_of_notMem hold, hI.readers]
  | true =>
    have hold : i ∈ readerScopes w := FinMap.mem_keysWith.mpr ⟨opened, hi, hreader⟩
    have hr := releases_of_reader hreader hI.backed
    refine ⟨?_, ?_, ?_, hI.distinct, ?_, ?_, hr.backed⟩
    · rw [hr.generation, hr.transcript]
      exact hI.latest
    · rw [hr.generation]
      exact hI.numbered
    · rw [hr.generation]
      exact hI.bounded
    · rw [hr.generation]
      exact hscopes
    · rw [hr.readers, hI.readers, readerScopes_delete hr.generation]
      exact (Finset.card_erase_of_mem hold).symm

/-! ### What a call can do -/

variable {call : Call α κ π ι}

/-- **The calls, by what they do**: open a scope, end one, start a generation, or keep the
transcript. -/
theorem step_cases (hI : StoreInvariant load w) (hagree : CheckpointsAgree load w call)
    (hst : step load w call = some w') :
    (∃ i, call = .beginScope i ∧ w.scopes.lookup i = none ∧
      w' = { w with
        store := (acquire load w.store).1
        scopes := w.scopes.insert i (acquire load w.store).2 }) ∨
    (∃ i opened, call = .endScope i ∧ w.scopes.lookup i = some opened ∧
      w' = { w with store := release opened w.store, scopes := w.scopes.delete i }) ∨
    (∃ store transcript, operation call = .write transcript ∧
      store.stateGeneration = nextGeneration w.store.stateGeneration ∧
      store.stateTranscript = residentTranscript transcript committedResident ∧
      (GenerationsLeft w call → w.commits.length < 2 ^ 64) ∧ w' = w.commit store transcript) ∨
    ∃ store, operation call = .keep ∧ Keeps load w.store store ∧ w' = { w with store } := by
  cases call with
  | beginScope i =>
    simp only [step] at hst
    split at hst
    · next hnew => exact .inl ⟨i, rfl, hnew, (some.inj hst).symm⟩
    · cases hst
  | failLoad =>
    simp only [step] at hst
    split at hst
    · cases hst
    · exact .inr (.inr (.inr ⟨w.store, rfl, keeps_of_eq rfl rfl, (some.inj hst).symm⟩))
  | endScope i =>
    obtain ⟨opened, hi, rfl⟩ := map_eq_some_iff.mp hst
    exact .inr (.inl ⟨i, opened, rfl, hi, rfl⟩)
  | commitConversationTranscript transcript =>
    cases hst
    exact .inr (.inr (.inl ⟨_, transcript, rfl, rfl, rfl, id, rfl⟩))
  | commitConversationBackendState candidate =>
    cases hst
    exact .inr (.inr (.inl ⟨_, candidate.backendItems, rfl, rfl, rfl, id, rfl⟩))
  | evictConversationTranscript expectedGeneration checkpoint =>
    cases hst
    refine .inr (.inr (.inr ⟨_, rfl, keeps_evictTranscript fun hg => ?_, rfl⟩))
    -- the generation it names is the current one, whose transcript the store holds
    exact hagree _ (List.mem_of_head? hI.latest) hg
  | retargetConversationCheckpoint checkpoint =>
    cases hst
    exact .inr (.inr (.inr ⟨_, rfl, keeps_retargetCheckpoint hagree, rfl⟩))
  | resetConversationStore =>
    cases hst
    exact .inr (.inr (.inl ⟨_, [], rfl, rfl, rfl, id, rfl⟩))
  | writeConversationPreviousResponseId value =>
    cases hst
    exact .inr (.inr (.inr ⟨{ w.store with stateContinuation := openAiContinuation value }, rfl,
      keeps_of_eq rfl rfl, rfl⟩))
  | modifyConversationAttachments update =>
    cases hst
    exact .inr (.inr (.inr ⟨{ w.store with
      stateAttachments := update w.store.stateAttachments }, rfl, keeps_of_eq rfl rfl, rfl⟩))

theorem step_invariant (hI : StoreInvariant load w) (hagree : CheckpointsAgree load w call)
    (hleft : GenerationsLeft w call) (hst : step load w call = some w') :
    StoreInvariant load w' := by
  obtain ⟨i, rfl, hnew, rfl⟩ | ⟨i, opened, rfl, hi, rfl⟩ | ⟨store, transcript, -, hg, ht, hlt, rfl⟩ |
    ⟨store, -, hk, rfl⟩ := step_cases hI hagree hst
  · exact beginScope_invariant hI hnew
  · exact endScope_invariant hI hi
  · exact hI.of_commit (hlt hleft) hg ht
  · exact hI.of_keeps hk

/-- **The invariant holds throughout a run that stays within its generations.** -/
theorem store_invariant (h₀ : Initial load w₀)
    (h : ReachableBy (step load)
      (fun w call => CheckpointsAgree load w call ∧ GenerationsLeft w call) w₀ w) :
    StoreInvariant load w :=
  h.invariant (start_invariant h₀) fun _ _ _ hI hok hst => step_invariant hI hok.1 hok.2 hst

/-- The transcript a release leaves. -/
theorem transcriptOf_release (hb : Backed load state) :
    transcriptOf load (release scope state) = transcriptOf load state := by
  cases hreader : scope.releaseHydration && scope.generation == state.stateGeneration with
  | false => rw [release_of_not_reader hreader]
  | true => exact (releases_of_reader hreader hb).transcript

/-- **Every call acts on the store as on a variable.** -/
theorem step_view (hI : StoreInvariant load w) (hagree : CheckpointsAgree load w call)
    (hst : step load w call = some w') :
    view load w' = (view load w).apply (operation call) := by
  obtain ⟨i, rfl, hnew, rfl⟩ | ⟨i, opened, rfl, hi, rfl⟩ | ⟨store, transcript, hop, hg, ht, -, rfl⟩ |
    ⟨store, hop, hk, rfl⟩ := step_cases hI hagree hst
  · have ha := acquires_acquire load w.store
    have hscopes : (w.scopes.insert i (acquire load w.store).2).map
          (fun scope => scope.snapshot.backendItems)
        = (w.scopes.map fun scope => scope.snapshot.backendItems).insert i
            (transcriptOf load w.store) := by
      ext1 j
      simp only [FinMap.lookup_map, FinMap.lookup_insert]
      split
      · rw [map_some, ha.snapshot, snapshotFromState]
      · rfl
    simp only [view, operation, Variable.apply, ha.transcript, hscopes]
  · have hscopes : (w.scopes.delete i).map (fun scope => scope.snapshot.backendItems)
        = (w.scopes.map fun scope => scope.snapshot.backendItems).delete i := by
      ext1 j
      simp only [FinMap.lookup_map, FinMap.lookup_delete]
      split <;> rfl
    simp only [view, operation, Variable.apply, transcriptOf_release hI.backed, hscopes]
  · have hval : transcriptOf load store = transcript := by rw [transcriptOf, ht]
    simp only [view, hop, Variable.apply, World.commit, hval]
  · simp only [view, hop, Variable.apply, hk.transcript]

/-- **The last reader to end makes the transcript cold.** -/
theorem endScope_cold_iff {items : List α} {readers i : ℕ} (hI : StoreInvariant load w)
    (ht : w.store.stateTranscript = residentTranscript items (hydratedResident checkpoint readers))
    (hst : step load w (.endScope i) = some w') :
    w'.store.stateTranscript = coldTranscript checkpoint ↔ readerScopes w' = ∅ := by
  have hagree : CheckpointsAgree load w (.endScope i) := trivial
  have hI' : StoreInvariant load w' := step_invariant hI hagree trivial hst
  obtain ⟨opened, hi, rfl⟩ := map_eq_some_iff.mp hst
  constructor
  · intro hcold
    have hzero : readersOf (release opened w.store) = 0 := by
      rw [readersOf, hcold]
    rw [← Finset.card_eq_zero, ← hI'.readers]
    exact hzero
  · intro hnone
    have hzero : readersOf (release opened w.store) = 0 := by
      rw [← Finset.card_eq_zero, ← hI'.readers] at hnone
      exact hnone
    have hpos : 0 < readersOf w.store := by
      rw [readersOf, ht]
      exact (hI.backed _ _ _ ht).2
    -- a scope that is no reader would have left the readers
    cases hreader : opened.releaseHydration && opened.generation == w.store.stateGeneration with
    | false =>
      rw [release_of_not_reader hreader] at hzero
      omega
    | true =>
      have hr := releases_of_reader hreader hI.backed
      rw [Bool.and_eq_true, beq_iff_eq] at hreader
      rw [hr.readers] at hzero
      have hone : readers = 1 := by
        simp only [readersOf, ht] at hzero hpos
        omega
      subst hone
      simp [release, releaseHydratedTranscript, ht, hreader.1, hreader.2]

/-! ### The claims about runs -/

/-- **The conversation store behaves like a plain variable.**  In a run of at most `2 ^ 64`
generations, every call acts as on a variable that holds the last commit, what is stale changes
nothing, the last scope that reads a hydrated transcript makes it cold, and no generation comes
twice. -/
theorem conversation_store_as_variable (h₀ : Initial load w₀)
    (h : ReachableBy (step load)
      (fun w call => CheckpointsAgree load w call ∧ GenerationsLeft w call) w₀ w) :
    -- the variable holds the last commit, and every call acts as on it
    (w.commits.head? = some (w.store.stateGeneration, (view load w).value) ∧
      ∀ call w', CheckpointsAgree load w call → step load w call = some w' →
        view load w' = (view load w).apply (operation call)) ∧
    -- a read scope sees the last commit before it
    (∀ i w', step load w (.beginScope i) = some w' → ∃ opened, w'.scopes.lookup i = some opened ∧
      w.commits.head? = some (opened.generation, opened.snapshot.backendItems)) ∧
    -- evictions and releases keep the transcript
    (∀ generation checkpoint w',
      CheckpointsAgree load w (.evictConversationTranscript generation checkpoint) →
      step load w (.evictConversationTranscript generation checkpoint) = some w' →
        transcriptOf load w'.store = transcriptOf load w.store) ∧
    (∀ i w', step load w (.endScope i) = some w' →
      transcriptOf load w'.store = transcriptOf load w.store) ∧
    -- stale evictions and releases change nothing
    (∀ generation checkpoint, generation ≠ w.store.stateGeneration →
      step load w (.evictConversationTranscript generation checkpoint) = some w) ∧
    (∀ i opened w', w.scopes.lookup i = some opened →
      opened.generation ≠ w.store.stateGeneration → step load w (.endScope i) = some w' →
        w'.store = w.store) ∧
    -- the readers of a hydrated transcript are the open scopes that must release it
    (∀ items checkpoint readers,
      w.store.stateTranscript = residentTranscript items (hydratedResident checkpoint readers) →
        readers = (readerScopes w).card ∧
        ∀ i w', step load w (.endScope i) = some w' →
          (w'.store.stateTranscript = coldTranscript checkpoint ↔ readerScopes w' = ∅)) ∧
    (w.commits.map Prod.fst).Nodup := by
  have hI := store_invariant h₀ h
  refine ⟨⟨hI.latest, fun call w' => step_view hI⟩, ?_, ?_, ?_, ?_, ?_, ?_, hI.distinct⟩
  · intro i w' hst
    simp only [step] at hst
    split at hst
    · have ha := acquires_acquire load w.store
      cases hst
      refine ⟨_, FinMap.lookup_insert_self, ?_⟩
      rw [ha.opening, ha.snapshot]
      exact hI.latest
    · cases hst
  · intro generation checkpoint w' hagree hst
    exact congrArg Variable.value (step_view hI hagree hst)
  · intro i w' hst
    have hagree : CheckpointsAgree load w (.endScope i) := trivial
    exact congrArg Variable.value (step_view hI hagree hst)
  · intro generation checkpoint hne
    simp only [step, evictTranscript_of_ne (Ne.symm hne)]
  · intro i opened w' hi hne hst
    have hstale : (opened.releaseHydration && opened.generation == w.store.stateGeneration)
        = false := by
      rw [beq_eq_false_iff_ne.mpr hne, Bool.and_false]
    simp only [step, hi, map_some] at hst
    cases hst
    exact release_of_not_reader hstale
  · intro items checkpoint readers ht
    refine ⟨?_, fun i w' => endScope_cold_iff hI ht⟩
    have hreaders := hI.readers
    rwa [readersOf, ht] at hreaders

/-- A transcript is evicted, read by two overlapping scopes, moved to another checkpoint under them,
and made cold by the second one's end. -/
def overlapRun : List (Call ℕ (List ℕ) ℕ ℕ) :=
  [.commitConversationTranscript [7], .evictConversationTranscript 1 [7], .beginScope 0,
    .beginScope 1, .endScope 0, .retargetConversationCheckpoint [7], .endScope 1,
    .evictConversationTranscript 0 [], .failLoad]

theorem conversation_store_as_variable_in_overlapRun :
    ∃ w : World ℕ (List ℕ) ℕ ℕ, ReachableBy (step id)
        (fun w call => CheckpointsAgree id w call ∧ GenerationsLeft w call)
        (.start id (newConversationStore none [] [])) w ∧
      w.store.stateTranscript = coldTranscript [7] ∧ (view id w).value = [7] ∧
      (w.commits.map Prod.fst).Nodup := by
  have hrun : (Machine.run (guarded
        (fun w call => CheckpointsAgree id w call ∧ GenerationsLeft w call) (step id))
      (.start id (newConversationStore none [] [])) overlapRun).any
        (fun w : World ℕ (List ℕ) ℕ ℕ =>
          w.store.stateTranscript == coldTranscript [7] && (view id w).value == [7]) = true := by
    decide +kernel
  obtain ⟨w, hw, htest⟩ := exists_reachableBy_of_run hrun
  simp only [Bool.and_eq_true, beq_iff_eq] at htest
  have hclaim := conversation_store_as_variable (.inl ⟨none, [], [], rfl⟩) hw
  exact ⟨w, hw, htest.1, htest.2, hclaim.2.2.2.2.2.2.2⟩

/-- Resets start as many generations as there are resets. -/
theorem exists_reachableBy_resets (load : κ → List α) (w : World α κ π ι) (n : ℕ) :
    ∃ w', ReachableBy (step load) (CheckpointsAgree load) w w' ∧
      w'.commits.length = w.commits.length + n := by
  induction n with
  | zero => exact ⟨w, .refl, rfl⟩
  | succ n ih =>
    obtain ⟨w', hw', hlen⟩ := ih
    refine ⟨w'.commit (resetState w'.store) [], .tail (e := .resetConversationStore) hw' ?_ rfl, ?_⟩
    · exact trivial
    · rw [World.commit, length_cons, hlen]
      rfl

/-- **The generations of a store that is reset `2 ^ 64` times repeat**: there are no more values of
a `Word64`. -/
theorem generations_repeat_after_resets :
    ∃ w : World ℕ (List ℕ) ℕ ℕ, ReachableBy (step id) (CheckpointsAgree id)
        (.start id (newConversationStore none [] [])) w ∧
      ¬ (w.commits.map Prod.fst).Nodup := by
  obtain ⟨w, hw, hlen⟩ := exists_reachableBy_resets id
    (.start id (newConversationStore none [] []) : World ℕ (List ℕ) ℕ ℕ) (2 ^ 64)
  refine ⟨w, hw, fun hdistinct => ?_⟩
  have hinj : Function.Injective UInt64.toFin := fun a b h => UInt64.toFin_inj.mp h
  have hle : ((w.commits.map Prod.fst).map UInt64.toFin).length ≤ Fintype.card (Fin UInt64.size) :=
    (hdistinct.map hinj).length_le_card
  rw [length_map, length_map, hlen, Fintype.card_fin] at hle
  simp [World.start, UInt64.size] at hle

end ConversationStore
end HaskellAgent
