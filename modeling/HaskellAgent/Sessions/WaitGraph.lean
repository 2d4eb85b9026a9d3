import HaskellAgent.Lib.Acyclic
import HaskellAgent.Lib.KeyedList
import HaskellAgent.Lib.Machine
import HaskellAgent.Loop.Input

/-!
# Waits between agent sessions

A session that waits for another one registers an edge.  The edges live in a directory that all
processes share, one subdirectory an edge, each with a lease file that the waiting process keeps
locked and a file with the edge's two sessions.  Admissions and removals run under one gate, so they
are serialized; a process that crashes gives up its leases and leaves its subdirectories behind, and
the next admission removes what it finds without a lease.

The contents of an edge file are what decoding them gives, so a written file is the edge itself.
-/

open List KeyedList Machine
open Option hiding or_self

namespace HaskellAgent

open KeyedList (DistinctKeys)

/-- A session that waits and the session it waits for. -/
abbrev WaitEdge := Text × Text

/-! ### The search -/

/-- The calls of the source's `visit`, at most `fuel` of them with work left. -/
def visit (graph : List WaitEdge) (goal : Text) : ℕ → List Text → List Text → Option Bool
  | _, _, [] => some false
  | 0, _, _ :: _ => none
  | fuel + 1, seen, node :: remaining =>
      if node = goal then some true
      else if node ∈ seen then visit graph goal fuel seen remaining
      else visit graph goal fuel (node :: seen)
        ((graph.filter (·.1 = node)).map Prod.snd ++ remaining)

def reachable (graph : List WaitEdge) (start goal : Text) : Bool :=
  (visit graph goal (graph.length + 1) [] [start]).getD false

/-- The edges the search has not followed yet. -/
def unseenEdges (graph : List WaitEdge) (seen : List Text) : List WaitEdge :=
  graph.filter (·.1 ∉ seen)

/-- Following the edges of a new node. -/
theorem length_unseenEdges (graph : List WaitEdge) {seen : List Text} {node : Text}
    (hnew : node ∉ seen) :
    (unseenEdges graph seen).length
      = (graph.filter (·.1 = node)).length + (unseenEdges graph (node :: seen)).length := by
  induction graph with
  | nil => rfl
  | cons edge graph ih =>
    simp only [unseenEdges, mem_cons] at ih ⊢
    -- an edge of the new node leaves the unseen ones, any other stays where it was
    by_cases hnode : edge.1 = node
    · simp only [filter_cons, hnode, hnew, true_or, not_true_eq_false, not_false_eq_true,
        decide_true, decide_false, Bool.false_eq_true, ↓reduceIte, length_cons]
      omega
    · by_cases hseen : edge.1 ∈ seen
      · simpa [filter_cons, hnode, hseen] using ih
      · simp only [filter_cons, hnode, hseen, or_self, not_false_eq_true, decide_true,
          decide_false, Bool.false_eq_true, ↓reduceIte, length_cons]
        omega

variable {seen stack : List Text} {graph : List WaitEdge} {fuel : ℕ}

/-- **The search returns**: every call takes a node off the stack, and every edge is pushed at most
once. -/
theorem visit_isSome (graph : List WaitEdge) (goal : Text)
    (hfuel : stack.length + (unseenEdges graph seen).length ≤ fuel) :
    (visit graph goal fuel seen stack).isSome := by
  induction fuel generalizing seen stack with
  | zero =>
    cases stack with
    | nil => rfl
    | cons node remaining => simp at hfuel
  | succ fuel ih =>
    cases stack with
    | nil => rfl
    | cons node remaining =>
      rw [visit]
      rw [length_cons] at hfuel
      split
      · rfl
      · split
        -- a node seen before only leaves the stack
        · exact ih (by omega)
        · next hnew =>
          have hsplit := length_unseenEdges graph hnew
          refine ih ?_
          rw [length_append, length_map]
          omega

/-- More calls than needed change nothing. -/
theorem visit_mono {goal : Text} {fuel more : ℕ}
    {found : Bool} (h : visit graph goal fuel seen stack = some found) (hle : fuel ≤ more) :
    visit graph goal more seen stack = some found := by
  induction fuel generalizing more seen stack with
  | zero =>
    cases stack with
    | nil => cases more <;> exact h
    | cons node remaining => simp [visit] at h
  | succ fuel ih =>
    cases stack with
    | nil => cases more <;> exact h
    | cons node remaining =>
      obtain ⟨more, rfl⟩ : ∃ k, more = k + 1 := ⟨more - 1, by omega⟩
      rw [visit] at h ⊢
      by_cases hgoal : node = goal
      · rw [if_pos hgoal] at h ⊢
        exact h
      · rw [if_neg hgoal] at h ⊢
        by_cases hseen : node ∈ seen
        · rw [if_pos hseen] at h ⊢
          exact ih h (by omega)
        · rw [if_neg hseen] at h ⊢
          exact ih h (by omega)

/-- **The search terminates on every edge list**, cyclic or not, after at most one call more than
there are edges. -/
theorem visit_eq_reachable (graph : List WaitEdge) (start goal : Text)
    (hfuel : graph.length + 1 ≤ fuel) :
    visit graph goal fuel [] [start] = some (reachable graph start goal) := by
  have hsome : (visit graph goal (graph.length + 1) [] [start]).isSome :=
    visit_isSome graph goal (by simp [unseenEdges]; omega)
  obtain ⟨found, hfound⟩ := isSome_iff_exists.mp hsome
  rw [reachable, hfound]
  exact visit_mono hfound hfuel

/-- The relation of an edge list. -/
def edgeOf (graph : List WaitEdge) (source target : Text) : Prop := (source, target) ∈ graph

/-- What the search finds is within reach of the stack. -/
theorem reach_of_visit {goal : Text}
    (h : visit graph goal fuel seen stack = some true) :
    ∃ node ∈ stack, Relation.ReflTransGen (edgeOf graph) node goal := by
  induction fuel generalizing seen stack with
  | zero => cases stack <;> simp [visit] at h
  | succ fuel ih =>
    cases stack with
    | nil => simp [visit] at h
    | cons node remaining =>
      rw [visit] at h
      split at h
      · next hgoal => exact ⟨node, mem_cons_self, hgoal ▸ .refl⟩
      · split at h
        · obtain ⟨found, hmem, hpath⟩ := ih h
          exact ⟨found, mem_cons_of_mem _ hmem, hpath⟩
        · obtain ⟨found, hmem, hpath⟩ := ih h
          rcases mem_append.mp hmem with hnext | hold
          · obtain ⟨⟨source, target⟩, hedge, rfl⟩ := List.mem_map.mp hnext
            obtain ⟨hin, hsource⟩ := mem_filter.mp hedge
            have hsource' : source = node := by simpa using hsource
            subst hsource'
            exact ⟨source, mem_cons_self, .head hin hpath⟩
          · exact ⟨found, mem_cons_of_mem _ hold, hpath⟩

/-- A search that finds nothing has seen nodes closed under the edges. -/
theorem closed_of_visit {goal : Text}
    (h : visit graph goal fuel seen stack = some false) (hgoal : goal ∉ seen)
    (hclosed : ∀ node ∈ seen, ∀ next, edgeOf graph node next → next ∈ seen ∨ next ∈ stack) :
    ∃ all : List Text, (∀ node, node ∈ seen ∨ node ∈ stack → node ∈ all) ∧ goal ∉ all ∧
      ∀ node ∈ all, ∀ next, edgeOf graph node next → next ∈ all := by
  induction fuel generalizing seen stack with
  | zero =>
    cases stack with
    -- with an empty stack, what was seen is closed already
    | nil =>
      refine ⟨seen, by simp, hgoal, fun node hnode next hnext => ?_⟩
      simpa using hclosed node hnode next hnext
    | cons node remaining => simp [visit] at h
  | succ fuel ih =>
    cases stack with
    | nil =>
      refine ⟨seen, by simp, hgoal, fun node hnode next hnext => ?_⟩
      simpa using hclosed node hnode next hnext
    | cons node remaining =>
      rw [visit] at h
      split at h
      · cases h
      · next hne =>
        split at h
        · next hold =>
          obtain ⟨all, hall, hout, hnext⟩ := ih h hgoal (by
            intro n hn m hm
            rcases hclosed n hn m hm with hseen | hstack
            · exact .inl hseen
            · rcases mem_cons.mp hstack with rfl | hrest
              · exact .inl hold
              · exact .inr hrest)
          refine ⟨all, ?_, hout, hnext⟩
          rintro n (hn | hn)
          · exact hall n (.inl hn)
          · rcases mem_cons.mp hn with rfl | hrest
            · exact hall n (.inl hold)
            · exact hall n (.inr hrest)
        · -- the successors of a new node go on the stack
          obtain ⟨all, hall, hout, hnext⟩ := ih h
            (by
              rw [mem_cons, not_or]
              exact ⟨fun heq => hne heq.symm, hgoal⟩)
            (by
              intro n hn m hm
              rw [mem_cons, mem_append]
              rcases mem_cons.mp hn with rfl | hseen
              · refine .inr (.inl (List.mem_map.mpr ⟨(n, m), ?_, rfl⟩))
                exact mem_filter.mpr ⟨hm, by simp⟩
              · rcases hclosed n hseen m hm with hseen' | hstack
                · exact .inl (.inr hseen')
                · rcases mem_cons.mp hstack with rfl | hrest
                  · exact .inl (.inl rfl)
                  · exact .inr (.inr hrest))
          refine ⟨all, ?_, hout, hnext⟩
          rintro n (hn | hn)
          · exact hall n (.inl (mem_cons_of_mem _ hn))
          · rcases mem_cons.mp hn with rfl | hrest
            · exact hall n (.inl mem_cons_self)
            · exact hall n (.inr (mem_append_right _ hrest))

/-- **The search decides reachability.** -/
theorem reachable_iff (graph : List WaitEdge) (start goal : Text) :
    reachable graph start goal = true ↔ Relation.ReflTransGen (edgeOf graph) start goal := by
  have hvisit := visit_eq_reachable graph start goal (Nat.le_refl _)
  constructor
  · intro hfound
    rw [hfound] at hvisit
    obtain ⟨node, hnode, hpath⟩ := reach_of_visit hvisit
    rw [mem_singleton] at hnode
    exact hnode ▸ hpath
  · intro hpath
    by_contra hnot
    rw [Bool.not_eq_true] at hnot
    rw [hnot] at hvisit
    -- the nodes seen contain the start and are closed, so they contain the end of every path
    obtain ⟨all, hall, hout, hnext⟩ := closed_of_visit hvisit (by simp) (by simp)
    have hreach : ∀ node, Relation.ReflTransGen (edgeOf graph) start node → node ∈ all := by
      intro node hnode
      induction hnode with
      | refl => exact hall start (.inr (by simp))
      | tail _ hedge ih => exact hnext _ ih _ hedge
    exact hout (hreach goal hpath)

/-! ### The wait directory -/

/-- A subdirectory of the wait directory: the process that holds its lease, and what its edge file
decodes to. -/
structure WaitEntry where
  name : ℕ
  lease : Option ℕ
  edgeFile : Option (Except Text WaitEdge)

/-- Probe one entry: remove it if its lease is free, read its edge if not.  `none` is an exception,
from an entry that is missing or that has no edge file. -/
def probeEntry (entries : List WaitEntry) (name : ℕ) :
    List WaitEntry × Option (Except Text (List WaitEdge)) :=
  match KeyedList.lookup WaitEntry.name name entries with
  | none => (entries, none)
  | some entry =>
      match entry.lease with
      | none => (KeyedList.delete WaitEntry.name name entries, some (.ok []))
      | some _ =>
          match entry.edgeFile with
          | none => (entries, none)
          | some (.error err) =>
              (entries, some (.error ("invalid live session wait edge: ".toList ++ err)))
          | some (.ok edge) => (entries, some (.ok [edge]))

/-- Probe the listed entries in turn, up to an exception. -/
def probeEntries (entries : List WaitEntry) :
    List ℕ → List WaitEntry × Option (List (Except Text (List WaitEdge)))
  | [] => (entries, some [])
  | name :: names =>
      match probeEntry entries name with
      | (kept, none) => (kept, none)
      | (kept, some result) =>
          match probeEntries kept names with
          | (last, none) => (last, none)
          | (last, some results) => (last, some (result :: results))

/-- Scan the listed entries. -/
def liveEdges (entries : List WaitEntry) (listing : List ℕ) :
    List WaitEntry × Option (Except Text (List WaitEdge)) :=
  match probeEntries entries listing with
  | (kept, none) => (kept, none)
  | (kept, some results) => (kept, some ((results.mapM id).map List.flatten))

/-- How an admission ends. -/
inductive Admission
  | refused (message : Text)
  | thrown
  | registered
  deriving DecidableEq

/-- Admit an edge under the gate, in the new entry `name`. -/
def acquireWaitEdge (process : ℕ) (source target : Text) (listing : List ℕ) (name : ℕ)
    (entries : List WaitEntry) : List WaitEntry × Admission :=
  match liveEdges entries listing with
  | (kept, none) => (kept, .thrown)
  | (kept, some (.error err)) => (kept, .refused err)
  | (kept, some (.ok graph)) =>
      if reachable graph target source then
        (kept, .refused "circular agent session wait rejected".toList)
      else (kept ++ [⟨name, some process, some (.ok (source, target))⟩], .registered)

/-! ### Processes that wait -/

/-- A session wait in progress. -/
structure SessionWait where
  process : ℕ
  name : ℕ
  source : Text
  target : Text
  deriving DecidableEq

/-- The wait directory and the waits in progress. -/
structure WaitWorld where
  entries : List WaitEntry
  waiting : List SessionWait

def WaitWorld.initial : WaitWorld := ⟨[], []⟩

/-- The start of `withSessionWaitEdge`. -/
def WaitWorld.admitWait (w : WaitWorld) (process : ℕ) (source target : Text) (listing : List ℕ)
    (name : ℕ) : WaitWorld × Admission :=
  if source = target then (w, .refused "cannot wait for the current agent session".toList)
  else
    match acquireWaitEdge process source target listing name w.entries with
    | (entries, .registered) =>
        (⟨entries, w.waiting ++ [⟨process, name, source, target⟩]⟩, .registered)
    | (entries, result) => ({ w with entries }, result)

/-- The edges of the waits in progress. -/
def WaitWorld.edge (w : WaitWorld) (source target : Text) : Prop :=
  ∃ wait ∈ w.waiting, wait.source = source ∧ wait.target = target

inductive SessionWaitEvent
  /-- A process calls `withSessionWaitEdge`; the directory is listed in some order. -/
  | admitWait (process : ℕ) (source target : Text) (listing : List ℕ) (name : ℕ)
  /-- An admission ends early, by an exception or a crash: it has probed some entries and may leave
  an entry without a lease. -/
  | abandon (listing : List ℕ) (leftover : Option (ℕ × Option (Except Text WaitEdge)))
  /-- The action of a wait ends and its entry is removed. -/
  | release (process name : ℕ)
  /-- The action of a wait ends and removing its entry fails half way. -/
  | releaseFails (process name : ℕ) (edgeFile : Option (Except Text WaitEdge))
  /-- A process crashes and gives up its leases. -/
  | crash (process : ℕ)

/-- An entry whose lease is given up. -/
def WaitEntry.unlock (entry : WaitEntry) : WaitEntry := { entry with lease := none }

def WaitWorld.step (w : WaitWorld) : SessionWaitEvent → Option WaitWorld
  | .admitWait process source target listing name =>
      if listing.Perm (w.entries.map WaitEntry.name) ∧ name ∉ w.entries.map WaitEntry.name then
        some (w.admitWait process source target listing name).1
      else none
  | .abandon listing leftover =>
      if listing.Nodup ∧ (∀ name ∈ listing, name ∈ w.entries.map WaitEntry.name) ∧
          ∀ left ∈ leftover, left.1 ∉ w.entries.map WaitEntry.name then
        some { w with
          entries := (probeEntries w.entries listing).1
            ++ leftover.toList.map fun left => ⟨left.1, none, left.2⟩ }
      else none
  | .release process name =>
      if ∃ wait ∈ w.waiting, wait.process = process ∧ wait.name = name then
        some ⟨KeyedList.delete WaitEntry.name name w.entries,
          KeyedList.delete SessionWait.name name w.waiting⟩
      else none
  | .releaseFails process name edgeFile =>
      if ∃ wait ∈ w.waiting, wait.process = process ∧ wait.name = name then
        some ⟨KeyedList.delete WaitEntry.name name w.entries ++ [⟨name, none, edgeFile⟩],
          KeyedList.delete SessionWait.name name w.waiting⟩
      else none
  | .crash process =>
      some ⟨w.entries.map fun entry => if entry.lease = some process then entry.unlock else entry,
        w.waiting.filter (·.process ≠ process)⟩

/-! ### What a scan finds -/

/-- Every leased entry has the edge of a wait in its file, and every wait has its entry. -/
structure WaitWorld.Registered (w : WaitWorld) : Prop where
  names : DistinctKeys WaitEntry.name w.entries
  leased : ∀ entry ∈ w.entries, ∀ process, entry.lease = some process →
    ∃ wait ∈ w.waiting, entry
      = ⟨wait.name, some wait.process, some (.ok (wait.source, wait.target))⟩
  entry : ∀ wait ∈ w.waiting,
    ⟨wait.name, some wait.process, some (.ok (wait.source, wait.target))⟩ ∈ w.entries

/-- The entries of the directory, where every leased one has an edge. -/
def EdgesWritten (entries : List WaitEntry) : Prop :=
  ∀ entry ∈ entries, ∀ process, entry.lease = some process →
    ∃ edge, entry.edgeFile = some (.ok edge)

/-- What is left after the entries with these names were probed. -/
def keptEntries (entries : List WaitEntry) (listing : List ℕ) : List WaitEntry :=
  entries.filter fun entry => entry.name ∉ listing ∨ entry.lease.isSome

/-- **What a scan does**: it removes the stale entries it probes and finds the edges of the
others. -/
theorem probeEntries_spec {entries : List WaitEntry} {listing : List ℕ}
    (hnames : DistinctKeys WaitEntry.name entries) (hwritten : EdgesWritten entries)
    (hnodup : listing.Nodup) (hlisted : ∀ name ∈ listing, name ∈ entries.map WaitEntry.name) :
    ∃ found : List (List WaitEdge),
      probeEntries entries listing = (keptEntries entries listing, some (found.map .ok)) ∧
      ∀ edge, edge ∈ found.flatten ↔ ∃ entry ∈ entries, entry.name ∈ listing ∧
        entry.lease.isSome ∧ entry.edgeFile = some (.ok edge) := by
  induction listing generalizing entries with
  | nil =>
    refine ⟨[], ?_, by simp⟩
    rw [probeEntries]
    simp [keptEntries]
  | cons name names ih =>
    obtain ⟨entry, hentry, rfl⟩ := List.mem_map.mp (hlisted name mem_cons_self)
    have hlookup : KeyedList.lookup WaitEntry.name entry.name entries = some entry :=
      (lookup_eq_some_iff hnames).mpr ⟨hentry, rfl⟩
    have honly : ∀ other ∈ entries, other.name = entry.name → other = entry :=
      fun other hother hname => hnames.eq_of_mem hother hentry hname
    rw [nodup_cons] at hnodup
    rw [probeEntries, probeEntry, hlookup]
    cases hlease : entry.lease with
    | none =>
      -- a stale entry goes
      obtain ⟨found, hprobe, hfound⟩ := ih (hnames.delete entry.name)
        (fun other hother => hwritten other (mem_delete.mp hother).1) hnodup.2 (by
          intro name hname
          obtain ⟨other, hother, rfl⟩ :=
            List.mem_map.mp (hlisted name (mem_cons_of_mem _ hname))
          refine List.mem_map.mpr ⟨other, mem_delete.mpr ⟨hother, ?_⟩, rfl⟩
          intro heq
          exact hnodup.1 (heq ▸ hname))
      have hkept : keptEntries (KeyedList.delete WaitEntry.name entry.name entries) names
          = keptEntries entries (entry.name :: names) := by
        unfold keptEntries KeyedList.delete
        rw [List.filter_filter]
        refine filter_congr fun other hother => ?_
        by_cases hname : other.name = entry.name
        · simp [honly other hother hname, hlease]
        · simp [hname]
      refine ⟨[] :: found, ?_, fun edge => ?_⟩
      · simp only [hlease, hprobe, hkept, map_cons]
      · rw [flatten_cons, nil_append, hfound]
        constructor
        · rintro ⟨other, hother, hname, hother'⟩
          exact ⟨other, (mem_delete.mp hother).1, mem_cons_of_mem _ hname, hother'⟩
        · rintro ⟨other, hother, hname, hleased, hfile⟩
          have hne : other.name ≠ entry.name := by
            intro heq
            rw [honly other hother heq, hlease] at hleased
            cases hleased
          exact ⟨other, mem_delete.mpr ⟨hother, hne⟩,
            (mem_cons.mp hname).resolve_left hne, hleased, hfile⟩
    | some process =>
      obtain ⟨edge, hedge⟩ := hwritten entry hentry process hlease
      obtain ⟨found, hprobe, hfound⟩ := ih hnames hwritten hnodup.2
        fun name hname => hlisted name (mem_cons_of_mem _ hname)
      have hkept : keptEntries entries names = keptEntries entries (entry.name :: names) := by
        refine filter_congr fun other hother => ?_
        by_cases hname : other.name = entry.name
        · simp [honly other hother hname, hlease]
        · simp [hname]
      refine ⟨[edge] :: found, ?_, fun e => ?_⟩
      · simp only [hlease, hedge, hprobe, hkept, map_cons]
      · rw [flatten_cons, mem_append, mem_singleton, hfound]
        constructor
        · rintro (rfl | ⟨other, hother, hname, hother'⟩)
          · exact ⟨entry, hentry, mem_cons_self, by rw [hlease]; rfl, hedge⟩
          · exact ⟨other, hother, mem_cons_of_mem _ hname, hother'⟩
        · rintro ⟨other, hother, hname, hleased, hfile⟩
          rcases mem_cons.mp hname with heq | hrest
          · rw [honly other hother heq, hedge] at hfile
            cases hfile
            exact .inl rfl
          · exact .inr ⟨other, hother, hrest, hleased, hfile⟩

/-- Results that are all edges. -/
theorem mapM_id_map_ok (found : List (List WaitEdge)) :
    ((found.map (Except.ok : _ → Except Text _)).mapM id) = .ok found := by
  induction found with
  | nil => rfl
  | cons edges found ih =>
    rw [map_cons, mapM_cons, ih]
    rfl

namespace WaitWorld

variable {w w' : WaitWorld}

theorem Registered.edgesWritten (h : w.Registered) : EdgesWritten w.entries := by
  intro entry hentry process hlease
  obtain ⟨wait, -, rfl⟩ := h.leased entry hentry process hlease
  exact ⟨_, rfl⟩

/-- **A scan of the whole directory finds the edges of the waits in progress.** -/
theorem Registered.liveEdges (h : w.Registered) {listing : List ℕ}
    (hlisting : listing.Perm (w.entries.map WaitEntry.name)) :
    ∃ graph, liveEdges w.entries listing = (keptEntries w.entries listing, some (.ok graph)) ∧
      ∀ source target, edgeOf graph source target ↔ w.edge source target := by
  obtain ⟨found, hprobe, hfound⟩ := probeEntries_spec h.names h.edgesWritten
    (hlisting.nodup_iff.mpr h.names) fun name hname => hlisting.mem_iff.mp hname
  refine ⟨found.flatten, ?_, fun source target => ?_⟩
  · rw [HaskellAgent.liveEdges, hprobe]
    simp only [mapM_id_map_ok]
    rfl
  -- a leased entry and a wait in progress determine each other
  · rw [edgeOf, hfound]
    constructor
    · rintro ⟨entry, hentry, -, hleased, hfile⟩
      obtain ⟨process, hlease⟩ := isSome_iff_exists.mp hleased
      obtain ⟨wait, hwait, rfl⟩ := h.leased entry hentry process hlease
      simp only [some.injEq, Except.ok.injEq, Prod.mk.injEq] at hfile
      exact ⟨wait, hwait, hfile.1, hfile.2⟩
    · rintro ⟨wait, hwait, rfl, rfl⟩
      have hentry := h.entry wait hwait
      exact ⟨_, hentry, hlisting.mem_iff.mpr (List.mem_map_of_mem hentry), rfl, rfl⟩

/-! ### Every step keeps the entries and the waits together -/

namespace Registered

theorem initial : WaitWorld.initial.Registered :=
  ⟨KeyedList.DistinctKeys.nil, by simp [WaitWorld.initial], by simp [WaitWorld.initial]⟩

section

variable (h : w.Registered)
include h

theorem kept (listing : List ℕ) :
    Registered { w with entries := keptEntries w.entries listing } where
  names := h.names.sublist (filter_sublist.map _)
  leased := fun entry hentry => h.leased entry (mem_of_mem_filter hentry)
  entry := fun wait hwait => mem_filter.mpr ⟨h.entry wait hwait, by simp⟩

/-- A new entry. -/
theorem names_concat (new : WaitEntry)
    (hfresh : new.name ∉ w.entries.map WaitEntry.name) :
    DistinctKeys WaitEntry.name (w.entries ++ [new]) := by
  unfold KeyedList.DistinctKeys
  rw [map_append, map_singleton, nodup_append]
  refine ⟨h.names, nodup_singleton _, ?_⟩
  intro name hname other hother heq
  rw [mem_singleton] at hother
  exact hfresh (hother ▸ heq ▸ hname)

theorem stale {name : ℕ} (edgeFile : Option (Except Text WaitEdge))
    (hfresh : name ∉ w.entries.map WaitEntry.name) :
    Registered { w with entries := w.entries ++ [⟨name, none, edgeFile⟩] } where
  names := h.names_concat _ hfresh
  leased := by
    intro entry hentry process hlease
    rcases mem_append.mp hentry with hold | hnew
    · exact h.leased entry hold process hlease
    · rw [mem_singleton] at hnew
      subst hnew
      cases hlease
  entry := fun wait hwait => mem_append_left _ (h.entry wait hwait)

theorem register (process : ℕ) {name : ℕ} (source target : Text)
    (hfresh : name ∉ w.entries.map WaitEntry.name) :
    Registered ⟨w.entries ++ [⟨name, some process, some (.ok (source, target))⟩],
      w.waiting ++ [⟨process, name, source, target⟩]⟩ where
  names := h.names_concat _ hfresh
  leased := by
    intro entry hentry holder hlease
    rcases mem_append.mp hentry with hold | hnew
    · obtain ⟨wait, hwait, heq⟩ := h.leased entry hold holder hlease
      exact ⟨wait, mem_append_left _ hwait, heq⟩
    · exact ⟨_, mem_append_right _ (mem_singleton_self _), mem_singleton.mp hnew⟩
  entry := by
    intro wait hwait
    rcases mem_append.mp hwait with hold | hnew
    · exact mem_append_left _ (h.entry wait hold)
    · rw [mem_singleton] at hnew
      subst hnew
      exact mem_append_right _ (mem_singleton_self _)

theorem drop (name : ℕ) :
    Registered ⟨KeyedList.delete WaitEntry.name name w.entries,
      KeyedList.delete SessionWait.name name w.waiting⟩ where
  names := h.names.delete name
  leased := by
    intro entry hentry process hlease
    obtain ⟨hold, hname⟩ := mem_delete.mp hentry
    obtain ⟨wait, hwait, rfl⟩ := h.leased entry hold process hlease
    exact ⟨wait, mem_delete.mpr ⟨hwait, hname⟩, rfl⟩
  entry := by
    intro wait hwait
    obtain ⟨hold, hname⟩ := mem_delete.mp hwait
    exact mem_delete.mpr ⟨h.entry wait hold, hname⟩

theorem crash (process : ℕ) :
    Registered ⟨w.entries.map fun entry =>
        if entry.lease = some process then entry.unlock else entry,
      w.waiting.filter (·.process ≠ process)⟩ where
  names := by
    have hsame : (w.entries.map fun entry =>
        if entry.lease = some process then entry.unlock else entry).map WaitEntry.name
        = w.entries.map WaitEntry.name := by
      rw [List.map_map]
      refine map_congr_left fun entry _ => ?_
      simp only [Function.comp_apply]
      split <;> rfl
    unfold KeyedList.DistinctKeys
    rw [hsame]
    exact h.names
  leased := by
    intro entry hentry holder hlease
    obtain ⟨old, hold, rfl⟩ := List.mem_map.mp hentry
    by_cases hcrashed : old.lease = some process
    · rw [if_pos hcrashed] at hlease
      cases hlease
    · rw [if_neg hcrashed] at hlease ⊢
      obtain ⟨wait, hwait, rfl⟩ := h.leased old hold holder hlease
      refine ⟨wait, mem_filter.mpr ⟨hwait, ?_⟩, rfl⟩
      simpa using hcrashed
  entry := by
    intro wait hwait
    obtain ⟨hold, hother⟩ := mem_filter.mp hwait
    refine List.mem_map.mpr ⟨_, h.entry wait hold, ?_⟩
    rw [if_neg (by simpa using hother)]

end

end Registered

/-- **An admission is refused for a cycle and for nothing else.** -/
theorem admitWait_cases (h : w.Registered) (process : ℕ) (source target : Text) {listing : List ℕ}
    (hlisting : listing.Perm (w.entries.map WaitEntry.name)) (name : ℕ) :
    (source = target ∧ w.admitWait process source target listing name
        = (w, .refused "cannot wait for the current agent session".toList)) ∨
      (Relation.ReflTransGen w.edge target source ∧ w.admitWait process source target listing name
        = ({ w with entries := keptEntries w.entries listing },
            .refused "circular agent session wait rejected".toList)) ∨
      (¬ Relation.ReflTransGen w.edge target source ∧ w.admitWait process source target listing name
        = (⟨keptEntries w.entries listing
              ++ [⟨name, some process, some (.ok (source, target))⟩],
            w.waiting ++ [⟨process, name, source, target⟩]⟩, .registered)) := by
  obtain ⟨graph, hscan, hgraph⟩ := h.liveEdges hlisting
  have hsame : edgeOf graph = w.edge := funext fun s => funext fun t => propext (hgraph s t)
  unfold admitWait acquireWaitEdge
  by_cases hself : source = target
  · exact .inl ⟨hself, by rw [if_pos hself]⟩
  · rw [if_neg hself, hscan, ← hsame, ← reachable_iff]
    by_cases hreach : reachable graph target source = true
    · exact .inr (.inl ⟨hreach, by simp [hreach]⟩)
    · exact .inr (.inr ⟨hreach, by simp [hreach]⟩)

/-- The waits and their entries, without a cycle. -/
structure WaitInvariant (w : WaitWorld) : Prop where
  registered : w.Registered
  acyclic : Relation.Acyclic w.edge

namespace WaitInvariant

theorem initial : WaitInvariant WaitWorld.initial := by
  refine ⟨Registered.initial, fun x hx => ?_⟩
  obtain ⟨_, ⟨wait, hwait, -⟩, -⟩ := Relation.TransGen.head'_iff.mp hx
  cases hwait

/-- Fewer waits close no cycle. -/
theorem of_waiting (h : WaitInvariant w) (hregistered : w'.Registered)
    (hwaiting : ∀ wait ∈ w'.waiting, wait ∈ w.waiting) : WaitInvariant w' := by
  refine ⟨hregistered, h.acyclic.mono ?_⟩
  rintro s t ⟨wait, hwait, hedge⟩
  exact ⟨wait, hwaiting wait hwait, hedge⟩

theorem step (h : WaitInvariant w) {event : SessionWaitEvent} (hst : w.step event = some w') :
    WaitInvariant w' := by
  cases event with
  | admitWait process source target listing name =>
    simp only [WaitWorld.step] at hst
    split at hst
    · next hguard =>
      cases hst
      obtain ⟨hlisting, hfresh⟩ := hguard
      rcases admitWait_cases h.registered process source target hlisting name with
        ⟨-, heq⟩ | ⟨-, heq⟩ | ⟨hout, heq⟩
      · rw [heq]
        exact h
      · rw [heq]
        exact h.of_waiting (h.registered.kept listing) fun wait hwait => hwait
      · rw [heq]
        have hkept := h.registered.kept listing
        have hfresh' : name ∉ (keptEntries w.entries listing).map WaitEntry.name :=
          fun hmem => hfresh ((filter_sublist.map _).subset hmem)
        -- the target does not reach the source, so the new edge closes no cycle
        refine ⟨hkept.register process source target hfresh', (h.acyclic.insert hout).mono ?_⟩
        rintro s t ⟨wait, hwait, rfl, rfl⟩
        rcases mem_append.mp hwait with hold | hnew
        · exact .inl ⟨wait, hold, rfl, rfl⟩
        · rw [mem_singleton] at hnew
          subst hnew
          exact .inr ⟨rfl, rfl⟩
    · cases hst
  | abandon listing leftover =>
    simp only [WaitWorld.step] at hst
    split at hst
    · next hguard =>
      cases hst
      obtain ⟨hnodup, hlisted, hfresh⟩ := hguard
      obtain ⟨found, hprobe, -⟩ := probeEntries_spec h.registered.names h.registered.edgesWritten
        hnodup hlisted
      have hkept := h.registered.kept listing
      rw [hprobe]
      refine h.of_waiting ?_ fun wait hwait => hwait
      cases leftover with
      | none => simpa using hkept
      | some left =>
        exact hkept.stale left.2 fun hmem =>
          hfresh left rfl ((filter_sublist.map _).subset hmem)
    · cases hst
  | release process name =>
    simp only [WaitWorld.step] at hst
    split at hst
    · cases hst
      exact h.of_waiting (h.registered.drop name) fun wait hwait =>
        (mem_delete.mp hwait).1
    · cases hst
  | releaseFails process name edgeFile =>
    simp only [WaitWorld.step] at hst
    split at hst
    · cases hst
      refine h.of_waiting ((h.registered.drop name).stale edgeFile ?_)
        fun wait hwait => (mem_delete.mp hwait).1
      simp
    · cases hst
  | crash process =>
    rw [WaitWorld.step, some.injEq] at hst
    subst hst
    exact h.of_waiting (h.registered.crash process) fun wait hwait => (mem_filter.mp hwait).1

end WaitInvariant

end WaitWorld

/-- **Session waits never form a cycle.**  In every state the processes reach, whatever order their
admissions, releases and crashes come in, the edges of the leased entries are those of the waits in
progress and have no cycle; an admission is refused exactly when the session is the target itself or
within reach of it; and the search behind this returns on every edge list, with reachability. -/
theorem session_waits_acyclic {w : WaitWorld}
    (hreach : Reachable WaitWorld.step WaitWorld.initial w) :
    Relation.Acyclic w.edge ∧
    (∀ source target, w.edge source target ↔ ∃ entry ∈ w.entries, entry.lease.isSome ∧
      entry.edgeFile = some (.ok (source, target))) ∧
    (∀ (process : ℕ) (source target : Text) (listing : List ℕ) (name : ℕ),
      listing.Perm (w.entries.map WaitEntry.name) → name ∉ w.entries.map WaitEntry.name →
      ((∃ message, (w.admitWait process source target listing name).2 = .refused message) ↔
        source = target ∨ Relation.ReflTransGen w.edge target source) ∧
      ((w.admitWait process source target listing name).2 = .registered ↔
        ¬ (source = target ∨ Relation.ReflTransGen w.edge target source))) ∧
    (∀ (graph : List WaitEdge) (start goal : Text),
      (∀ fuel, graph.length + 1 ≤ fuel →
        visit graph goal fuel [] [start] = some (reachable graph start goal)) ∧
      (reachable graph start goal = true ↔
        Relation.ReflTransGen (edgeOf graph) start goal)) := by
  have h : WaitWorld.WaitInvariant w :=
    hreach.invariant WaitWorld.WaitInvariant.initial fun _ _ _ hinv _ hst => hinv.step hst
  refine ⟨h.acyclic, ?_, ?_, ?_⟩
  · intro source target
    constructor
    · rintro ⟨wait, hwait, rfl, rfl⟩
      exact ⟨_, h.registered.entry wait hwait, rfl, rfl⟩
    · rintro ⟨entry, hentry, hleased, hfile⟩
      obtain ⟨process, hlease⟩ := isSome_iff_exists.mp hleased
      obtain ⟨wait, hwait, rfl⟩ := h.registered.leased entry hentry process hlease
      simp only [some.injEq, Except.ok.injEq, Prod.mk.injEq] at hfile
      exact ⟨wait, hwait, hfile.1, hfile.2⟩
  -- the three outcomes of an admission exclude each other
  · intro process source target listing name hlisting hfresh
    rcases WaitWorld.admitWait_cases h.registered process source target hlisting name with
      ⟨hself, heq⟩ | ⟨hpath, heq⟩ | ⟨hout, heq⟩
    · rw [heq]
      simp [hself]
    · simp [heq, hpath]
    · have hne : source ≠ target := by
        rintro rfl
        exact hout .refl
      simp [heq, hout, hne]
  · intro graph start goal
    exact ⟨fun fuel hfuel => visit_eq_reachable graph start goal hfuel,
      reachable_iff graph start goal⟩

/-- Two processes wait in a chain, the first one crashes, and a third admission removes its
entry. -/
def sessionWaitRun : List SessionWaitEvent :=
  [.admitWait 1 "a".toList "b".toList [] 0, .admitWait 2 "b".toList "c".toList [0] 1, .crash 1,
    .admitWait 3 "c".toList "a".toList [1, 0] 2]

theorem session_waits_acyclic_in_sessionWaitRun :
    ∃ w, Reachable WaitWorld.step WaitWorld.initial w ∧
      w.waiting = [⟨2, 1, "b".toList, "c".toList⟩, ⟨3, 2, "c".toList, "a".toList⟩] ∧
      w.entries.map WaitEntry.name = [1, 2] ∧ Relation.Acyclic w.edge := by
  have hrun : (Machine.run WaitWorld.step WaitWorld.initial sessionWaitRun).any (fun w => w.waiting
        = [⟨2, 1, "b".toList, "c".toList⟩, ⟨3, 2, "c".toList, "a".toList⟩] ∧
          w.entries.map WaitEntry.name = [1, 2]) = true := by
    decide +kernel
  obtain ⟨w, hreach, htest⟩ := exists_reachable_of_run hrun
  rw [decide_eq_true_eq] at htest
  exact ⟨w, hreach, htest.1, htest.2, (session_waits_acyclic hreach).1⟩

end HaskellAgent
