import HaskellAgent.Loop.Input
import Mathlib.Algebra.Order.Ring.Int
import Mathlib.Data.List.Dedup

/-!
# Listing a directory

A listing shows at most a number of nodes.  A directory is read only if its node is shown, and each
entry keeps a slot for every later one of its directory; what is left goes to what is below it.  This
is the same as reading the whole tree and cutting it afterwards.

The operations stand in for the file system and for git.  The functions that go down into directories
take an amount of fuel, one for each level; `none` says that it was used up.
-/

open List
open Option hiding max_eq_right

namespace HaskellAgent

namespace ListDir

/-! ### Nodes -/

inductive DirNode
  | file (name : Text)
  | directory (name : Text) (children : List DirNode)
  | error (name : Text) (message : Text)

/-- The components of a path. -/
abbrev Path := List Text

structure ListDirOperations where
  readDirectoryEntries : Path → Except Text (List (Text × Bool))
  findIgnoredPaths : Path → List Path → List Path
  isEntrySymbolicLink : Path → Bool

/-- From the last dot on. -/
def takeExtension (name : Text) : Text :=
  if '.' ∈ name then '.' :: (name.reverse.takeWhile (· ≠ '.')).reverse else []

/-- `Map.fromListWith (+)` of ones, as a list in the order of the keys. -/
def extensionCounts (files : List Text) : List (Text × ℕ) :=
  let extensions := files.map fun file =>
    if takeExtension file = [] then "(no ext)".toList else takeExtension file
  ((extensions.mergeSort fun a b => decide (a ≤ b)).dedup).map fun ext =>
    (ext, extensions.count ext)

def extensionSummary (files : List Text) : Text :=
  let rendered := ((extensionCounts files).mergeSort fun a b => decide (b.2 ≤ a.2)).map
    fun (ext, n) => (toString n).toList ++ " *".toList ++ ext
  ['('] ++ (toString files.length).toList ++ " files: ".toList ++
    List.intercalate ", ".toList (rendered.take 4) ++ [')']

def summarizeDir (name : Text) (children : List DirNode) : DirNode :=
  let files := children.filterMap fun | .file file => some file | _ => none
  let dirs := children.filter fun | .directory _ _ => true | _ => false
  let errors := children.filter fun | .error _ _ => true | _ => false
  if files.length > 20 && dirs.isEmpty && errors.isEmpty then
    .directory (name ++ [' '] ++ extensionSummary files) []
  else .directory name children

def isLargeFlatDirectory (entries : List (Text × Bool)) : Bool :=
  decide (entries.length > 20) && entries.all fun entry => !entry.2

def summarizedDirectory (name : Text) (entries : List (Text × Bool)) : DirNode :=
  summarizeDir name (entries.map fun entry => .file entry.1)

mutual

def countNode : DirNode → ℤ
  | .file _ => 1
  | .directory _ children => 1 + countNodes children
  | .error _ _ => 1

def countNodes : List DirNode → ℤ
  | [] => 0
  | node :: rest => countNode node + countNodes rest

end

/-! ### Cutting a tree -/

mutual

/-- The slots that are left, the number of the nodes, and the nodes. -/
@[grind =] def fill (remaining restCount : ℤ) : List DirNode → List DirNode × Bool
  | [] => ([], false)
  | node :: rest =>
      if remaining ≤ 0 then ([], true)
      else
        let reserved := min (remaining - 1) (restCount - 1)
        let available := remaining - reserved
        let taken := takeNode available node
        let more := fill (remaining - taken.2.1) (restCount - 1) rest
        (taken.1 :: more.1, taken.2.2 || more.2)

@[grind =] def takeNode (budget : ℤ) : DirNode → DirNode × ℤ × Bool
  | .file name => (.file name, 1, false)
  | .error name message => (.error name message, 1, false)
  | .directory name children =>
      if budget ≤ 1 then (.directory name [], 1, !children.isEmpty)
      else
        let kept := fill (budget - 1) children.length children
        (.directory name kept.1, 1 + countNodes kept.1, kept.2)

end

def capNodes (budget : ℤ) (nodes : List DirNode) : List DirNode × Bool :=
  fill (max 0 budget) nodes.length nodes

/-! ### Reading directories -/

section Reading

variable (operations : ListDirOperations) (cwd : Path)

def visibleEntries (path : Path) : Except Text (List (Text × Bool)) :=
  match operations.readDirectoryEntries path with
  | .error err => .error err
  | .ok raw =>
      let candidates := (raw.filter fun entry => !(['.'].isPrefixOf entry.1)).mergeSort
        fun a b => decide (a.1 ≤ b.1)
      let ignored := operations.findIgnoredPaths cwd (candidates.map fun entry => path ++ [entry.1])
      .ok (candidates.filterMap fun (name, isDir) =>
        if path ++ [name] ∈ ignored then none
        else if !isDir then some (name, false)
        -- a link to a directory is not followed
        else some (name, !operations.isEntrySymbolicLink (path ++ [name])))

/-- What an entry is shown as is the first argument. -/
def fillBounded (toNode : ℤ → Path → Text × Bool → Option (DirNode × Bool)) (remaining restCount : ℤ)
    (parent : Path) : List (Text × Bool) → Option (List DirNode × Bool)
  | [] => some ([], false)
  | entry :: rest =>
      if remaining ≤ 0 then some ([], true)
      else do
        let reserved := min (remaining - 1) (restCount - 1)
        let available := remaining - reserved
        let (node, nodeTruncated) ← toNode available parent entry
        let (more, restTruncated) ←
          fillBounded toNode (remaining - countNodes [node]) (restCount - 1) parent rest
        some (node :: more, nodeTruncated || restTruncated)

def collectEntries (toNode : ℤ → Path → Text × Bool → Option (DirNode × Bool)) (budget : ℤ)
    (parent : Path) (entries : List (Text × Bool)) : Option (List DirNode × Bool) :=
  fillBounded toNode (max 0 budget) entries.length parent entries

@[grind =] def toNodeBounded : ℕ → ℤ → Path → Text × Bool → Option (DirNode × Bool)
  | _, _, _, (name, false) => some (.file name, false)
  | 0, _, _, (_, true) => none
  | fuel + 1, budget, parent, (name, true) =>
      match visibleEntries operations cwd (parent ++ [name]) with
      | .error err => some (.error name err, false)
      | .ok entries =>
          if isLargeFlatDirectory entries then some (summarizedDirectory name entries, false)
          else do
            let (children, truncated) ←
              collectEntries (toNodeBounded fuel) (max 0 (budget - 1)) (parent ++ [name]) entries
            some (.directory name children, truncated)

def collectDirWith (fuel : ℕ) (budget : ℤ) (path : Path) :
    Option (Except Text (List DirNode × Bool)) :=
  match visibleEntries operations cwd path with
  | .error err => some (.error err)
  | .ok entries =>
      (collectEntries (toNodeBounded operations cwd fuel) budget path entries).map .ok

/-! ### The whole tree -/

/-- The node of an entry with everything below it. -/
@[grind =] def toNode : ℕ → Path → Text × Bool → Option DirNode
  | _, _, (name, false) => some (.file name)
  | 0, _, (_, true) => none
  | fuel + 1, parent, (name, true) =>
      match visibleEntries operations cwd (parent ++ [name]) with
      | .error err => some (.error name err)
      | .ok entries =>
          if isLargeFlatDirectory entries then some (summarizedDirectory name entries)
          else (entries.mapM (toNode fuel (parent ++ [name]))).map (.directory name)

def collectTree (fuel : ℕ) (path : Path) : Option (Except Text (List DirNode)) :=
  match visibleEntries operations cwd path with
  | .error err => some (.error err)
  | .ok entries => (entries.mapM (toNode operations cwd fuel path)).map .ok

/-- No directory is below itself for ever. -/
inductive FiniteTree : Path → Prop
  | intro {path : Path}
      (below : ∀ entries name, visibleEntries operations cwd path = .ok entries →
        (name, true) ∈ entries → FiniteTree (path ++ [name])) : FiniteTree path

end Reading

/-! ### Counting -/

@[simp] theorem countNodes_nil : countNodes [] = 0 := by rw [countNodes]

@[simp] theorem countNodes_cons (node : DirNode) (rest : List DirNode) :
    countNodes (node :: rest) = countNode node + countNodes rest := by rw [countNodes]

@[simp] theorem countNode_directory (name : Text) (children : List DirNode) :
    countNode (.directory name children) = 1 + countNodes children := by rw [countNode]

@[simp] theorem countNode_file (name : Text) : countNode (.file name) = 1 := by rw [countNode]

@[simp] theorem countNode_error (name message : Text) : countNode (.error name message) = 1 := by
  rw [countNode]

/-- A slot is taken for each node that is kept. -/
theorem takeNode_used (budget : ℤ) (node : DirNode) :
    (takeNode budget node).2.1 = countNode (takeNode budget node).1 := by
  cases node with
  | file name => rw [takeNode, countNode_file]
  | error name message => rw [takeNode, countNode_error]
  | directory name children =>
    rw [takeNode]
    split
    · rw [countNode_directory, countNodes_nil, add_zero]
    · rw [countNode_directory]

theorem fill_nil (remaining restCount : ℤ) : fill remaining restCount [] = ([], false) := by
  rw [fill]

/-- Without a slot nothing is kept. -/
theorem fill_of_nonpos {remaining : ℤ} (h : remaining ≤ 0) (restCount : ℤ) (nodes : List DirNode) :
    fill remaining restCount nodes = ([], !nodes.isEmpty) := by
  cases nodes with
  | nil => exact fill_nil _ _
  | cons node rest =>
    rw [fill, if_pos h]
    rfl

theorem fill_cons_of_pos {remaining : ℤ} (h : 0 < remaining) (restCount : ℤ) (node : DirNode)
    (rest : List DirNode) :
    fill remaining restCount (node :: rest) =
      ((takeNode (remaining - min (remaining - 1) (restCount - 1)) node).1 ::
          (fill (remaining - (takeNode (remaining - min (remaining - 1) (restCount - 1)) node).2.1)
            (restCount - 1) rest).1,
        (takeNode (remaining - min (remaining - 1) (restCount - 1)) node).2.2 ||
          (fill (remaining - (takeNode (remaining - min (remaining - 1) (restCount - 1)) node).2.1)
            (restCount - 1) rest).2) := by
  rw [fill, if_neg (by omega)]

/-- A directory that has a slot is kept with as many of its children as there are other slots. -/
theorem takeNode_directory {budget : ℤ} (h : 1 ≤ budget) (name : Text) (children : List DirNode) :
    takeNode budget (.directory name children) =
      (.directory name (fill (max 0 (budget - 1)) children.length children).1,
        1 + countNodes (fill (max 0 (budget - 1)) children.length children).1,
        (fill (max 0 (budget - 1)) children.length children).2) := by
  rw [takeNode]
  split
  · next hle =>
    rw [fill_of_nonpos (by omega), countNodes_nil]
    rfl
  · rw [max_eq_right (by omega : 0 ≤ budget - 1)]

mutual

/-- **Not more slots are taken than there are.** -/
theorem countNode_takeNode_le (budget : ℤ) (h : 1 ≤ budget) :
    ∀ node, countNode (takeNode budget node).1 ≤ budget
  | .file name => by rwa [takeNode, countNode_file]
  | .error name message => by rwa [takeNode, countNode_error]
  | .directory name children => by
    have hchildren := countNodes_fill_le (max 0 (budget - 1)) (le_max_left _ _) children
    rw [takeNode_directory h, countNode_directory]
    rw [max_eq_right (by omega : 0 ≤ budget - 1)] at hchildren ⊢
    omega

theorem countNodes_fill_le (remaining : ℤ) (h : 0 ≤ remaining) :
    ∀ nodes : List DirNode, countNodes (fill remaining nodes.length nodes).1 ≤ remaining
  | [] => by rwa [fill_nil, countNodes_nil]
  | node :: rest => by
    rcases h.eq_or_lt with hzero | hpos
    · rw [fill_of_nonpos hzero.ge, countNodes_nil]
      exact h
    · have hlength : ((node :: rest).length : ℤ) - 1 = rest.length := by
        rw [length_cons, Nat.cast_succ, add_sub_cancel_right]
      have hnode := countNode_takeNode_le (remaining - min (remaining - 1) rest.length)
        (by omega) node
      have hrest := countNodes_fill_le
        (remaining - countNode (takeNode (remaining - min (remaining - 1) rest.length) node).1)
        (by omega) rest
      rw [fill_cons_of_pos hpos, countNodes_cons, takeNode_used, hlength]
      omega

end

/-- What has been taken for a node leaves a slot for each node behind it. -/
theorem length_le_of_takeNode {remaining : ℤ} {node : DirNode} {rest : List DirNode}
    (h : ((node :: rest).length : ℤ) ≤ remaining) :
    (rest.length : ℤ) ≤
      remaining - (takeNode (remaining - min (remaining - 1) rest.length) node).2.1 := by
  rw [length_cons, Nat.cast_succ] at h
  have hnode := countNode_takeNode_le (remaining - min (remaining - 1) rest.length) (by omega) node
  rw [takeNode_used]
  omega

/-! ### Reading is cutting -/

section Reading

variable {operations : ListDirOperations} {cwd : Path}

variable {entries : List (Text × Bool)}

theorem summarizedDirectory_eq (h : isLargeFlatDirectory entries = true) (name : Text) :
    summarizedDirectory name entries =
      .directory (name ++ [' '] ++ extensionSummary (entries.map Prod.fst)) [] := by
  have hlarge : entries.length > 20 := by
    rw [isLargeFlatDirectory, Bool.and_eq_true, decide_eq_true_iff] at h
    exact h.1
  have hfiles : (entries.map fun entry => DirNode.file entry.1).filterMap
      (fun | .file file => some file | _ => none) = entries.map Prod.fst := by
    rw [filterMap_map]
    exact congrFun filterMap_eq_map' entries
  have hdirs : (entries.map fun entry => DirNode.file entry.1).filter
      (fun | .directory _ _ => true | _ => false) = [] := by
    simp [filter_eq_nil_iff]
  have herrors : (entries.map fun entry => DirNode.file entry.1).filter
      (fun | .error _ _ => true | _ => false) = [] := by
    simp [filter_eq_nil_iff]
  rw [summarizedDirectory, summarizeDir]
  simp only [hfiles, hdirs, herrors, length_map, hlarge]
  rfl

variable {nodes : List DirNode} {entry : Text × Bool}

/-- **What is read and shown is the whole tree, cut**, if this is so for every entry. -/
theorem fillBounded_eq_fill {toNodeB : ℤ → Path → Text × Bool → Option (DirNode × Bool)}
    {parent : Path}
    (h : List.Forall₂ (fun entry node => ∀ budget, 1 ≤ budget → toNodeB budget parent entry =
      some ((takeNode budget node).1, (takeNode budget node).2.2)) entries nodes)
    (remaining restCount : ℤ) :
    fillBounded toNodeB remaining restCount parent entries = some (fill remaining restCount nodes) := by
  induction h generalizing remaining restCount with
  | nil => rw [fill_nil, fillBounded]
  | @cons entry node rest nodes hentry _ ih =>
    rw [fillBounded]
    split
    · next hle =>
      rw [fill_of_nonpos hle]
      rfl
    · next hpos =>
      dsimp only
      rw [fill_cons_of_pos (by omega), hentry _ (by omega), bind_eq_bind, Option.bind_some]
      dsimp only
      rw [countNodes_cons, countNodes_nil, add_zero, ← takeNode_used, ih]
      rfl

theorem forall₂_of_mapM {f : Text × Bool → Option DirNode}
    (h : entries.mapM f = some nodes) :
    List.Forall₂ (fun entry node => f entry = some node) entries nodes := by
  induction entries generalizing nodes with
  | nil =>
    cases h
    exact .nil
  | cons entry rest ih =>
    rw [mapM_cons] at h
    obtain ⟨node, hnode, h⟩ := bind_eq_some_iff.mp h
    obtain ⟨more, hmore, h⟩ := bind_eq_some_iff.mp h
    cases h
    exact .cons hnode (ih hmore)

/-- The node of an entry is that of the whole tree, cut. -/
theorem toNodeBounded_eq {fuel : ℕ} {parent : Path} {node : DirNode}
    (h : toNode operations cwd fuel parent entry = some node) {budget : ℤ} (hbudget : 1 ≤ budget) :
    toNodeBounded operations cwd fuel budget parent entry =
      some ((takeNode budget node).1, (takeNode budget node).2.2) := by
  induction fuel generalizing parent entry node budget with
  | zero =>
    rcases entry with ⟨name, - | -⟩
    · cases h
      rw [toNodeBounded, takeNode]
    · cases h
  | succ fuel ih =>
    rcases entry with ⟨name, - | -⟩
    · cases h
      rw [toNodeBounded, takeNode]
    · rw [toNode] at h
      rw [toNodeBounded]
      cases hentries : visibleEntries operations cwd (parent ++ [name]) with
      | error err =>
        rw [hentries] at h
        cases h
        rw [takeNode]
      | ok entries =>
        rw [hentries] at h
        dsimp only at h ⊢
        by_cases hlarge : isLargeFlatDirectory entries = true
        · rw [if_pos hlarge] at h ⊢
          cases h
          rw [summarizedDirectory_eq hlarge, takeNode_directory hbudget, fill_nil]
        · rw [if_neg hlarge] at h ⊢
          obtain ⟨children, hchildren, rfl⟩ := map_eq_some_iff.mp h
          have hall := forall₂_of_mapM hchildren
          rw [collectEntries, fillBounded_eq_fill (hall.imp fun entry node hnode budget hle =>
            ih hnode hle), hall.length_eq, takeNode_directory hbudget, max_eq_right (le_max_left _ _)]
          rfl

/-! ### Finite trees -/

/-- With enough fuel the nodes of all entries are known if that of each one is. -/
theorem exists_mapM {f : ℕ → Text × Bool → Option DirNode}
    (h : ∀ entry ∈ entries, ∃ enough node, ∀ fuel, enough ≤ fuel → f fuel entry = some node) :
    ∃ enough nodes, ∀ fuel, enough ≤ fuel → entries.mapM (f fuel) = some nodes := by
  induction entries with
  | nil => exact ⟨0, [], fun _ _ => rfl⟩
  | cons entry rest ih =>
    rw [forall_mem_cons] at h
    obtain ⟨first, node, hnode⟩ := h.1
    obtain ⟨others, nodes, hnodes⟩ := ih h.2
    refine ⟨max first others, node :: nodes, fun fuel hfuel => ?_⟩
    rw [mapM_cons, hnode fuel ((le_max_left _ _).trans hfuel),
      hnodes fuel ((le_max_right _ _).trans hfuel)]
    rfl

/-- **The whole tree of a finite directory is known**, with enough fuel. -/
theorem exists_collectTree {path : Path} (h : FiniteTree operations cwd path) :
    ∃ enough full, ∀ fuel, enough ≤ fuel → collectTree operations cwd fuel path = some full := by
  induction h with
  | @intro path below ih =>
    cases hentries : visibleEntries operations cwd path with
    | error err =>
      refine ⟨0, .error err, fun fuel _ => ?_⟩
      rw [collectTree, hentries]
    | ok entries =>
      have hnodes : ∀ entry ∈ entries, ∃ enough node, ∀ fuel, enough ≤ fuel →
          toNode operations cwd fuel path entry = some node := by
        rintro ⟨name, isDir⟩ hmem
        cases isDir with
        | false => exact ⟨0, .file name, fun fuel _ => by cases fuel <;> rfl⟩
        | true =>
          obtain ⟨enough, full, hfull⟩ := ih entries name hentries hmem
          -- one level more than below the entry
          suffices hstep : ∃ node, ∀ fuel, enough ≤ fuel →
              toNode operations cwd (fuel + 1) path (name, true) = some node by
            obtain ⟨node, hnode⟩ := hstep
            refine ⟨enough + 1, node, fun fuel hfuel => ?_⟩
            cases fuel with
            | zero => cases hfuel
            | succ fuel => exact hnode fuel (Nat.le_of_succ_le_succ hfuel)
          simp only [toNode, collectTree] at hfull ⊢
          cases hbelow : visibleEntries operations cwd (path ++ [name]) with
          | error err => exact ⟨_, fun fuel _ => rfl⟩
          | ok entries =>
            rw [hbelow] at hfull
            dsimp only at hfull ⊢
            split
            · exact ⟨_, fun fuel _ => rfl⟩
            · cases full with
              | error err =>
                obtain ⟨nodes, -, heq⟩ := map_eq_some_iff.mp (hfull enough (le_refl _))
                cases heq
              | ok nodes =>
                refine ⟨.directory name nodes, fun fuel hfuel => ?_⟩
                obtain ⟨found, hfound, heq⟩ := map_eq_some_iff.mp (hfull fuel hfuel)
                cases heq
                rw [hfound]
                rfl
      obtain ⟨enough, nodes, hall⟩ := exists_mapM hnodes
      refine ⟨enough, .ok nodes, fun fuel hfuel => ?_⟩
      rw [collectTree, hentries]
      dsimp only
      rw [hall fuel hfuel]
      rfl

/-! ### What is shown -/

/-- What an entry is shown as. -/
inductive Shows : Text × Bool → DirNode → Prop
  | file (name : Text) : Shows (name, false) (.file name)
  | directory (name : Text) (children : List DirNode) : Shows (name, true) (.directory name children)
  | summary (name : Text) (files : List Text) :
      Shows (name, true) (.directory (name ++ [' '] ++ extensionSummary files) [])
  | error (name message : Text) : Shows (name, true) (.error name message)

theorem shows_toNode {fuel : ℕ} {parent : Path} {node : DirNode}
    (h : toNode operations cwd fuel parent entry = some node) : Shows entry node := by
  rcases entry with ⟨name, - | -⟩
  · cases fuel <;> cases h <;> exact .file name
  · cases fuel with
    | zero => cases h
    | succ fuel =>
      rw [toNode] at h
      split at h
      · cases h
        exact .error name _
      · split at h
        · next hlarge =>
          cases h
          rw [summarizedDirectory_eq hlarge]
          exact .summary name _
        · obtain ⟨children, -, rfl⟩ := map_eq_some_iff.mp h
          exact .directory name children

/-- A node that is cut shows the same entry. -/
theorem Shows.takeNode {node : DirNode} (h : Shows entry node) (budget : ℤ) :
    Shows entry (takeNode budget node).1 := by
  cases h with
  | file name =>
    rw [ListDir.takeNode]
    exact .file name
  | error name message =>
    rw [ListDir.takeNode]
    exact .error name message
  | directory name children =>
    rw [ListDir.takeNode]
    split
    · exact .directory name []
    · exact .directory name _
  | summary name files =>
    rw [ListDir.takeNode]
    split
    · exact .summary name files
    · rw [fill_nil]
      exact .summary name files

/-- **Each entry has a node if there is a slot for each.** -/
theorem shows_fill (h : List.Forall₂ Shows entries nodes) {remaining : ℤ}
    (hremaining : (nodes.length : ℤ) ≤ remaining) :
    List.Forall₂ Shows entries (fill remaining nodes.length nodes).1 := by
  induction h generalizing remaining with
  | nil =>
    rw [fill_nil]
    exact .nil
  | @cons entry node entries nodes hentry _ ih =>
    have hlength : ((node :: nodes).length : ℤ) - 1 = nodes.length := by
      rw [length_cons, Nat.cast_succ, add_sub_cancel_right]
    have hpos : 0 < remaining := by
      rw [length_cons, Nat.cast_succ] at hremaining
      omega
    have hrest := length_le_of_takeNode hremaining
    rw [fill_cons_of_pos hpos, hlength]
    exact .cons (hentry.takeNode _) (ih hrest)

/-- **A listing is the whole tree, cut.**  For a finite tree and with enough fuel, the directories
that are read give the nodes and the flag that the whole tree gives; there are no more nodes than
the budget says, and every entry of the directory has one if there are enough. -/
theorem collectDirWith_eq_capNodes {path : Path} (h : FiniteTree operations cwd path) :
    ∃ enough full, ∀ fuel, enough ≤ fuel → collectTree operations cwd fuel path = some full ∧
      ∀ budget, collectDirWith operations cwd fuel budget path =
          some (full.map (capNodes budget)) ∧
        ∀ nodes truncated, full.map (capNodes budget) = .ok (nodes, truncated) →
          countNodes nodes ≤ max 0 budget ∧
          ∃ entries, visibleEntries operations cwd path = .ok entries ∧
            ((entries.length : ℤ) ≤ budget → List.Forall₂ Shows entries nodes) := by
  obtain ⟨enough, full, hfull⟩ := exists_collectTree h
  refine ⟨enough, full, fun fuel hfuel => ⟨hfull fuel hfuel, fun budget => ?_⟩⟩
  have htree := hfull fuel hfuel
  rw [collectTree] at htree
  rw [collectDirWith]
  cases hentries : visibleEntries operations cwd path with
  | error err =>
    rw [hentries] at htree
    cases htree
    exact ⟨rfl, fun nodes truncated hnodes => by cases hnodes⟩
  | ok entries =>
    rw [hentries] at htree
    obtain ⟨tree, hnodes, rfl⟩ := map_eq_some_iff.mp htree
    have hall := forall₂_of_mapM hnodes
    refine ⟨?_, fun nodes truncated hcapped => ?_⟩
    · dsimp only
      rw [collectEntries, fillBounded_eq_fill (hall.imp fun entry node hnode budget hle =>
        toNodeBounded_eq hnode hle), hall.length_eq]
      rfl
    · obtain rfl : (capNodes budget tree).1 = nodes := congrArg Prod.fst (Except.ok.inj hcapped)
      refine ⟨countNodes_fill_le _ (le_max_left _ _) tree, entries, rfl, fun hlength => ?_⟩
      rw [hall.length_eq] at hlength
      have hshows := hall.imp fun entry node hnode => shows_toNode hnode
      exact shows_fill hshows (hlength.trans (le_max_right _ _))

end Reading

/-! ### A directory with a link, an unreadable directory and a hidden file -/

/-- The root has a directory, a link to a directory, a file and a hidden file. -/
def exampleOperations : ListDirOperations where
  readDirectoryEntries path :=
    if path = [] then .ok [(['f'], false), (['.', 'h'], false), (['l'], true), (['d'], true)]
    else .error ['x']
  findIgnoredPaths _ _ := []
  isEntrySymbolicLink path := path = [['l']]

theorem finiteTree_exampleOperations : FiniteTree exampleOperations [] [] := by
  have hbelow : ∀ name, FiniteTree exampleOperations [] [name] := fun name =>
    .intro fun entries _ hentries _ => by cases hentries
  exact .intro fun entries name _ _ => hbelow name

theorem collectDirWith_eq_capNodes_in_exampleOperations :
    ∃ full : Except Text (List DirNode), ∀ nodes truncated,
      full.map (capNodes 2) = .ok (nodes, truncated) → countNodes nodes ≤ 2 := by
  obtain ⟨enough, full, hfull⟩ := collectDirWith_eq_capNodes finiteTree_exampleOperations
  exact ⟨full, fun nodes truncated hnodes =>
    (((hfull enough (le_refl _)).2 2).2 nodes truncated hnodes).1⟩

end ListDir

end HaskellAgent
