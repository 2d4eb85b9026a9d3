import Mathlib.Data.List.Infix
import Mathlib.Data.List.Lattice

/-!
# File trees and their paths

A file tree has directories, files and symbolic links.  A path is walked component by component:
`..` leads to the directory that a directory is in, wherever a link has led the walk, and only so
many links are followed.

## Main definitions

* `Tree`, `Tree.put` — a tree, and the tree with an entry made or replaced.
* `walk` — where a path leads.
* `mkdir`, `writeFile`, `isSymbolicLink` — system calls.
* `makeAlong` — a path walked with its missing directories made on the way.
* `places` — what a path names, when its missing directories are made and a file is written at its
  end.

## Main results

* `walk_append` — **a path is walked part by part**.
* `makeAlong_places` — the tree differs in the places made, which were missing.
* `walk_makeAlong`, `not_isDirectory_of_makeAlong` — the path then leads where it has been made to
  lead.
-/

open List

namespace Posix

variable {ν κ : Type*}

/-- What stands between two separators of a path; nothing does behind a trailing one. -/
inductive Component (ν : Type*)
  | blank
  | current
  | parent
  | name (n : ν)
  deriving DecidableEq

structure Path (ν : Type*) where
  absolute : Bool
  components : List (Component ν)
  deriving DecidableEq

inductive Node (ν κ : Type*)
  | directory
  | file (content : κ)
  | link (target : Path ν)
  deriving DecidableEq

def Node.isDirectory : Node ν κ → Bool
  | .directory => true
  | _ => false

def Node.isLink : Node ν κ → Bool
  | .link _ => true
  | _ => false

/-- A location is the names on the way from the root.  What is in the tree is in a directory. -/
structure Tree (ν κ : Type*) where
  node : List ν → Option (Node ν κ)
  root : (node []).any Node.isDirectory = true
  parent : ∀ location n, (node (location ++ [n])).isSome = true →
    (node location).any Node.isDirectory = true

namespace Tree

def isDirectory (tree : Tree ν κ) (location : List ν) : Bool :=
  (tree.node location).any Node.isDirectory

def isLink (tree : Tree ν κ) (location : List ν) : Bool := (tree.node location).any Node.isLink

/-- The tree of a root without entries. -/
def empty : Tree ν κ where
  node
    | [] => some .directory
    | _ :: _ => none
  root := rfl
  parent := by
    intro location n h
    cases location <;> cases h

/-- What is above an entry is a directory. -/
theorem isDirectory_of_prefix {tree : Tree ν κ} {l m : List ν}
    (h : (tree.node (l ++ m)).isSome = true) (hne : m ≠ []) : tree.isDirectory l = true := by
  induction m using List.reverseRecOn with
  | nil => exact absurd rfl hne
  | append_singleton m n ih =>
    rw [← append_assoc] at h
    have hparent := tree.parent (l ++ m) n h
    rcases m with - | ⟨first, rest⟩
    · rwa [List.append_nil] at hparent
    · refine ih ?_ (cons_ne_nil _ _)
      obtain ⟨node, hnode, -⟩ := (Option.any_eq_true _ _).mp hparent
      rw [hnode]
      rfl

theorem isSome_of_isDirectory {tree : Tree ν κ} {location : List ν}
    (h : tree.isDirectory location = true) : (tree.node location).isSome = true := by
  obtain ⟨node, hnode, -⟩ := (Option.any_eq_true _ _).mp h
  rw [hnode]
  rfl

variable [DecidableEq ν]

/-- The node is put at a location in a directory, unless a directory is there. -/
def put (tree : Tree ν κ) (location : List ν) (node : Node ν κ) : Tree ν κ where
  node l :=
    if l = location ∧ location ≠ [] ∧ tree.isDirectory location.dropLast = true ∧
        tree.isDirectory location = false then some node
    else tree.node l
  root := by
    split_ifs with h
    · exact absurd h.1.symm h.2.1
    · exact tree.root
  parent := by
    intro l n hsome
    have hkept : ∀ l, tree.isDirectory l = true →
        (if l = location ∧ location ≠ [] ∧ tree.isDirectory location.dropLast = true ∧
          tree.isDirectory location = false then some node else tree.node l).any
            Node.isDirectory = true := by
      intro l hl
      split_ifs with h
      · rw [h.1, h.2.2.2] at hl
        exact absurd hl Bool.false_ne_true
      · exact hl
    refine hkept l ?_
    split_ifs at hsome with h
    · rw [← h.1, dropLast_concat] at h
      exact h.2.2.1
    · exact tree.parent l n hsome

theorem node_put_of_ne (tree : Tree ν κ) {location l : List ν} (node : Node ν κ)
    (h : l ≠ location) : (tree.put location node).node l = tree.node l :=
  if_neg fun hput => h hput.1

theorem node_put (tree : Tree ν κ) {location : List ν} {n : ν} (node : Node ν κ)
    (hparent : tree.isDirectory location = true)
    (hold : tree.isDirectory (location ++ [n]) = false) :
    (tree.put (location ++ [n]) node).node (location ++ [n]) = some node := by
  refine if_pos ⟨rfl, concat_ne_nil _ _, ?_, hold⟩
  rw [dropLast_concat]
  exact hparent

end Tree

/-! ### Walking a path -/

/-- Where a path leads; with the number of links that may still be followed. -/
inductive Outcome (ν : Type*)
  | found (location : List ν) (links : ℕ)
  /-- A name is not in its directory; with what comes behind it. -/
  | missing (location : List ν) (n : ν) (rest : List (Component ν))
  | notDirectory
  | tooManyLinks
  deriving DecidableEq

inductive Errno
  | noEntry
  | notDirectory
  | tooManyLinks
  | exists
  | isDirectory
  deriving DecidableEq

def Outcome.errno : Outcome ν → Errno
  | .found _ _ => .exists
  | .missing _ _ _ => .noEntry
  | .notDirectory => .notDirectory
  | .tooManyLinks => .tooManyLinks

/-- The walk up to its first link, which is left to `follow`. -/
@[grind =] def walkWith (tree : Tree ν κ) (follow : List ν → List (Component ν) → Outcome ν) (links : ℕ) :
    List ν → List (Component ν) → Outcome ν
  | location, [] => .found location links
  | location, component :: rest =>
      if tree.isDirectory location then
        match component with
        | .blank | .current => walkWith tree follow links location rest
        | .parent => walkWith tree follow links location.dropLast rest
        | .name n =>
            match tree.node (location ++ [n]) with
            | none => .missing location n rest
            | some (.link target) =>
                follow (if target.absolute then [] else location) (target.components ++ rest)
            | some _ => walkWith tree follow links (location ++ [n]) rest
      else .notDirectory

@[grind =] def walk (tree : Tree ν κ) : ℕ → List ν → List (Component ν) → Outcome ν
  | 0 => walkWith tree (fun _ _ => .tooManyLinks) 0
  | links + 1 => walkWith tree (walk tree links) (links + 1)

/-- The walk goes on from where it has led. -/
def Outcome.andThen (outcome : Outcome ν) (tree : Tree ν κ) (rest : List (Component ν)) :
    Outcome ν :=
  match outcome with
  | .found location links => walk tree links location rest
  | .missing location n others => .missing location n (others ++ rest)
  | .notDirectory => .notDirectory
  | .tooManyLinks => .tooManyLinks

theorem walk_nil (tree : Tree ν κ) (links : ℕ) (location : List ν) :
    walk tree links location [] = .found location links := by
  cases links <;> rfl

variable {tree : Tree ν κ} {links : ℕ}

theorem walkWith_append {follow : List ν → List (Component ν) → Outcome ν}
    (hself : walk tree links = walkWith tree follow links)
    (hfollow : ∀ location xs ys, follow location (xs ++ ys) = (follow location xs).andThen tree ys)
    (location : List ν) (xs ys : List (Component ν)) :
    walkWith tree follow links location (xs ++ ys) =
      (walkWith tree follow links location xs).andThen tree ys := by
  induction xs generalizing location with
  | nil => simp only [nil_append, walkWith, Outcome.andThen, hself]
  | cons component rest ih =>
    rw [cons_append]
    cases component with
    | blank | current =>
      simp only [walkWith]
      split_ifs
      · exact ih location
      · rfl
    | parent =>
      simp only [walkWith]
      split_ifs
      · exact ih location.dropLast
      · rfl
    | name n =>
      simp only [walkWith]
      split_ifs
      · cases hnode : tree.node (location ++ [n]) with
        | none => rfl
        | some node =>
          cases node with
          | directory | file content => exact ih (location ++ [n])
          | link target =>
            dsimp only
            rw [← append_assoc]
            exact hfollow _ _ _
      · rfl

/-- **A path is walked part by part.** -/
theorem walk_append (tree : Tree ν κ) (links : ℕ) (location : List ν)
    (xs ys : List (Component ν)) :
    walk tree links location (xs ++ ys) = (walk tree links location xs).andThen tree ys := by
  induction links generalizing location xs ys with
  | zero => exact walkWith_append rfl (fun _ _ _ => rfl) location xs ys
  | succ links ih => exact walkWith_append rfl ih location xs ys

theorem walk_cons (tree : Tree ν κ) (links : ℕ) (location : List ν) (component : Component ν)
    (rest : List (Component ν)) :
    walk tree links location (component :: rest) =
      (walk tree links location [component]).andThen tree rest :=
  walk_append tree links location [component] rest

section Component

variable {tree : Tree ν κ} {location : List ν} {links : ℕ}

theorem walk_of_not_isDirectory (h : tree.isDirectory location = false) (links : ℕ)
    (component : Component ν) (rest : List (Component ν)) :
    walk tree links location (component :: rest) = .notDirectory := by
  have hwalk : ∀ follow links, walkWith tree follow links location (component :: rest) =
      .notDirectory := by
    intro follow links
    cases component <;> simp only [walkWith, h, Bool.false_eq_true, if_false]
  cases links <;> exact hwalk _ _

section

variable (h : tree.isDirectory location = true)
include h

theorem walk_stay {component : Component ν}
    (hcomponent : component = .blank ∨ component = .current) :
    walk tree links location [component] = .found location links := by
  rcases hcomponent with rfl | rfl <;> cases links <;> simp only [walk, walkWith, h, if_true]

theorem walk_parent :
    walk tree links location [.parent] = .found location.dropLast links := by
  cases links <;> simp only [walk, walkWith, h, if_true]

theorem walk_missing {n : ν}
    (hnode : tree.node (location ++ [n]) = none) :
    walk tree links location [.name n] = .missing location n [] := by
  cases links <;> simp only [walk, walkWith, h, hnode, if_true]

theorem walk_name {n : ν} {node : Node ν κ}
    (hnode : tree.node (location ++ [n]) = some node) (hlink : node.isLink = false) :
    walk tree links location [.name n] = .found (location ++ [n]) links := by
  cases node with
  | link target => cases hlink
  | directory | file content => cases links <;> simp only [walk, walkWith, h, hnode, if_true]

end

end Component

/-! ### More of the same -/

/-- What is in one tree is in the other. -/
def Extends (tree tree' : Tree ν κ) : Prop :=
  ∀ l, (tree.node l).isSome = true → tree'.node l = tree.node l

variable {location : List ν} {tree' : Tree ν κ} {l : List ν}

theorem Extends.isDirectory (h : Extends tree tree')
    (hl : tree.isDirectory l = true) : tree'.isDirectory l = true := by
  rw [Tree.isDirectory, h l (Tree.isSome_of_isDirectory hl)]
  exact hl

theorem extends_put [DecidableEq ν] {tree : Tree ν κ} (node : Node ν κ)
    (h : tree.node location = none) : Extends tree (tree.put location node) := by
  intro l hl
  refine Tree.node_put_of_ne tree node fun heq => ?_
  rw [heq, h] at hl
  cases hl

theorem walkWith_extends (h : Extends tree tree')
    {follow follow' : List ν → List (Component ν) → Outcome ν} {links : ℕ}
    (hfollow : ∀ location xs l k, follow location xs = .found l k →
      follow' location xs = .found l k) {xs : List (Component ν)}
    {k : ℕ} (hfound : walkWith tree follow links location xs = .found l k) :
    walkWith tree' follow' links location xs = .found l k := by
  induction xs generalizing location with
  | nil => exact hfound
  | cons component rest ih =>
    by_cases hdirectory : tree.isDirectory location = true
    · have hdirectory' := h.isDirectory hdirectory
      cases component with
      | blank | current | parent =>
        simp only [walkWith, hdirectory, hdirectory', if_true] at hfound ⊢
        exact ih hfound
      | name n =>
        simp only [walkWith, hdirectory, hdirectory', if_true] at hfound ⊢
        cases hnode : tree.node (location ++ [n]) with
        | none =>
          rw [hnode] at hfound
          cases hfound
        | some node =>
          have hnode' : tree'.node (location ++ [n]) = some node := by
            rw [h _ (by rw [hnode]; rfl), hnode]
          rw [hnode] at hfound
          rw [hnode']
          cases node with
          | directory | file content => exact ih hfound
          | link target => exact hfollow _ _ _ _ hfound
    · rw [Bool.not_eq_true] at hdirectory
      cases component <;>
        simp only [walkWith, hdirectory, Bool.false_eq_true, if_false, reduceCtorEq] at hfound

/-- A path leads to the same place in a tree that has more. -/
theorem walk_extends (h : Extends tree tree') {links : ℕ}
    {xs : List (Component ν)} {k : ℕ}
    (hfound : walk tree links location xs = .found l k) :
    walk tree' links location xs = .found l k := by
  induction links generalizing location xs l k with
  | zero =>
    refine walkWith_extends h (fun _ _ _ _ hnone => ?_) hfound
    cases hnone
  | succ links ih => exact walkWith_extends h (fun _ _ _ _ => ih) hfound

/-- What a walk says of the tree. -/
def Outcome.Sound (tree : Tree ν κ) : Outcome ν → Prop
  | .found l _ => (tree.node l).isSome = true
  | .missing l n _ => tree.isDirectory l = true ∧ tree.node (l ++ [n]) = none
  | _ => True

theorem Tree.isDirectory_dropLast (h : tree.isDirectory l = true) :
    tree.isDirectory l.dropLast = true := by
  rcases eq_nil_or_concat l with rfl | ⟨before, n, rfl⟩
  · exact h
  · rw [concat_eq_append] at h ⊢
    rw [dropLast_concat]
    exact tree.parent before n (Tree.isSome_of_isDirectory h)

theorem walkWith_sound {follow : List ν → List (Component ν) → Outcome ν}
    (hfollow : ∀ location xs, tree.isDirectory location = true → (follow location xs).Sound tree)
    (xs : List (Component ν)) (h : (tree.node location).isSome = true) :
    (walkWith tree follow links location xs).Sound tree := by
  induction xs generalizing location with
  | nil => exact h
  | cons component rest ih =>
    by_cases hdirectory : tree.isDirectory location = true
    · cases component with
      | blank | current =>
        simp only [walkWith, hdirectory, if_true]
        exact ih h
      | parent =>
        simp only [walkWith, hdirectory, if_true]
        exact ih (Tree.isSome_of_isDirectory (Tree.isDirectory_dropLast hdirectory))
      | name n =>
        simp only [walkWith, hdirectory, if_true]
        cases hnode : tree.node (location ++ [n]) with
        | none => exact ⟨hdirectory, hnode⟩
        | some node =>
          have hsome : (tree.node (location ++ [n])).isSome = true := by
            rw [hnode]
            rfl
          cases node with
          | directory | file content => exact ih hsome
          | link target =>
            refine hfollow _ _ ?_
            split_ifs
            · exact tree.root
            · exact hdirectory
    · rw [Bool.not_eq_true] at hdirectory
      cases component <;> simp only [walkWith, hdirectory, Bool.false_eq_true, if_false] <;>
        trivial

variable {location : List ν}

theorem walk_sound (xs : List (Component ν)) (h : (tree.node location).isSome = true) :
    (walk tree links location xs).Sound tree := by
  induction links generalizing location xs with
  | zero =>
    have hnone : ∀ (l : List ν) (xs : List (Component ν)), tree.isDirectory l = true →
        Outcome.Sound tree .tooManyLinks := fun _ _ _ => trivial
    exact walkWith_sound hnone xs h
  | succ links ih =>
    exact walkWith_sound (fun _ xs hdirectory => ih xs (Tree.isSome_of_isDirectory hdirectory)) xs h

/-- The name that a directory does not have. -/
def missingName (tree : Tree ν κ) (location : List ν) : Component ν → Option ν
  | .name n =>
      if tree.isDirectory location && (tree.node (location ++ [n])).isNone then some n else none
  | _ => none

theorem missingName_eq_some {component : Component ν} {n : ν}
    (h : missingName tree location component = some n) :
    component = .name n ∧ tree.isDirectory location = true ∧
      tree.node (location ++ [n]) = none := by
  cases component with
  | name m =>
    simp only [missingName] at h
    split_ifs at h with htest
    · cases h
      rw [Bool.and_eq_true, Option.isNone_iff_eq_none] at htest
      exact ⟨rfl, htest⟩
  | _ => cases h

theorem node_ne_none_of_missingName {n : ν} (hdirectory : tree.isDirectory location = true)
    (h : missingName tree location (.name n) = none) : tree.node (location ++ [n]) ≠ none := by
  intro hnode
  simp only [missingName, hdirectory, hnode, Option.isNone_none, Bool.and_self, if_true,
    reduceCtorEq] at h

/-- The file that the last component of a path names. -/
def filePlace (tree : Tree ν κ) (links : ℕ) (location : List ν) (component : Component ν) :
    List (List ν) :=
  match walk tree links location [component] with
  | .found l _ => if tree.isDirectory l then [] else [l]
  | .missing l n [] => [l ++ [n]]
  | _ => []

theorem filePlace_eq (tree : Tree ν κ) (links : ℕ) (location : List ν) (component : Component ν) :
    filePlace tree links location component = [] ∨
      ∃ place, filePlace tree links location component = [place] := by
  unfold filePlace
  split
  · split_ifs
    · exact Or.inl rfl
    · exact Or.inr ⟨_, rfl⟩
  · exact Or.inr ⟨_, rfl⟩
  · exact Or.inl rfl

/-! ### System calls -/

variable [DecidableEq ν]

/-- The name at the end of a path stands for itself, where a link is not to be followed. -/
def mkdir (tree : Tree ν κ) (links : ℕ) (components : List (Component ν)) :
    Except Errno (Tree ν κ) :=
  match components.getLast? with
  | some (.name n) =>
      match walk tree links [] components.dropLast with
      | .found location _ =>
          if tree.isDirectory location then
            if (tree.node (location ++ [n])).isNone then
              .ok (tree.put (location ++ [n]) .directory)
            else .error .exists
          else .error .notDirectory
      | outcome => .error outcome.errno
  | _ => .error (walk tree links [] components).errno

def isSymbolicLink (tree : Tree ν κ) (links : ℕ) (components : List (Component ν)) :
    Except Errno Bool :=
  match components.getLast? with
  | some (.name n) =>
      match walk tree links [] components.dropLast with
      | .found location _ =>
          if tree.isDirectory location then
            if (tree.node (location ++ [n])).isNone then .error .noEntry
            else .ok (tree.isLink (location ++ [n]))
          else .error .notDirectory
      | outcome => .error outcome.errno
  | _ =>
      match walk tree links [] components with
      | .found _ _ => .ok false
      | outcome => .error outcome.errno

/-- The file at the end of a path is replaced, or made in its directory. -/
def writeFile (tree : Tree ν κ) (links : ℕ) (components : List (Component ν)) (content : κ) :
    Except Errno (Tree ν κ) :=
  match walk tree links [] components with
  | .found location _ =>
      if tree.isDirectory location then .error .isDirectory
      else .ok (tree.put location (.file content))
  | .missing location n [] => .ok (tree.put (location ++ [n]) (.file content))
  | outcome => .error outcome.errno

/-! ### Making a path -/

structure Made (ν κ : Type*) where
  tree : Tree ν κ
  /-- The directories that were made. -/
  places : List (List ν)
  reached : Option (List ν × ℕ)

/-- A path is walked, and its missing directories are made on the way. -/
@[grind =] def makeAlong (tree : Tree ν κ) (links : ℕ) (location : List ν) : List (Component ν) → Made ν κ
  | [] => ⟨tree, [], some (location, links)⟩
  | component :: rest =>
      match missingName tree location component with
      | some n =>
          let made := makeAlong (tree.put (location ++ [n]) .directory) links (location ++ [n]) rest
          { made with places := (location ++ [n]) :: made.places }
      | none =>
          match walk tree links location [component] with
          | .found next left =>
              if tree.isDirectory next then makeAlong tree left next rest else ⟨tree, [], none⟩
          | _ => ⟨tree, [], none⟩

/-- What a path names, when its missing directories are made and a file is written at its end. -/
def places (tree : Tree ν κ) (links : ℕ) (components : List (Component ν)) : List (List ν) :=
  let made := makeAlong tree links [] components.dropLast
  made.places ++
    match made.reached, components.getLast? with
    | some (location, left), some component => filePlace made.tree left location component
    | _, _ => []

/-- A file can be put where a path names it. -/
theorem node_put_filePlace {place : List ν} {component : Component ν}
    (hdirectory : tree.isDirectory location = true)
    (h : place ∈ filePlace tree links location component) (content : κ) :
    (tree.put place (.file content)).node place = some (.file content) := by
  have hsound : (walk tree links location [component]).Sound tree :=
    walk_sound [component] (Tree.isSome_of_isDirectory hdirectory)
  unfold filePlace at h
  split at h
  · next l left hwalk =>
    rw [hwalk] at hsound
    split_ifs at h with hfile
    · exact absurd h not_mem_nil
    · rw [mem_singleton.mp h]
      rcases eq_nil_or_concat l with rfl | ⟨before, n, rfl⟩
      · exact absurd tree.root hfile
      · rw [concat_eq_append] at hsound hfile ⊢
        exact Tree.node_put tree _ (tree.parent before n hsound) (eq_false_of_ne_true hfile)
  · next l n hwalk =>
    rw [hwalk] at hsound
    rw [mem_singleton.mp h]
    refine Tree.node_put tree _ hsound.1 ?_
    rw [Tree.isDirectory, hsound.2]
    rfl
  · exact absurd h not_mem_nil

theorem writeFile_of_filePlace {left : ℕ} {before : List (Component ν)} (component : Component ν)
    (hbefore : walk tree links [] before = .found location left) (content : κ) :
    (∀ place, filePlace tree left location component = [place] →
      writeFile tree links (before ++ [component]) content =
        .ok (tree.put place (.file content))) ∧
    (filePlace tree left location component = [] →
      ∃ err, writeFile tree links (before ++ [component]) content = .error err) := by
  have hwhole : walk tree links [] (before ++ [component]) =
      walk tree left location [component] := by
    rw [walk_append, hbefore]
    rfl
  rw [writeFile, hwhole, filePlace]
  cases walk tree left location [component] with
  | found l k =>
    dsimp only
    split_ifs
    · exact ⟨(fun place h => nomatch h), fun _ => ⟨_, rfl⟩⟩
    · refine ⟨fun place h => ?_, fun h => nomatch h⟩
      rw [singleton_inj.mp h]
  | missing l n rest =>
    cases rest with
    | nil =>
      refine ⟨fun place h => ?_, fun h => nomatch h⟩
      rw [← singleton_inj.mp h]
    | cons first others => exact ⟨(fun place h => nomatch h), fun _ => ⟨_, rfl⟩⟩
  | notDirectory | tooManyLinks => exact ⟨(fun place h => nomatch h), fun _ => ⟨_, rfl⟩⟩

/-- Nothing is written in what is not a directory. -/
theorem writeFile_of_not_isDirectory {before : List (Component ν)}
    (h : ∀ l k, walk tree links [] before = .found l k → tree.isDirectory l = false)
    (component : Component ν) (content : κ) :
    ∃ err, writeFile tree links (before ++ [component]) content = .error err := by
  rw [writeFile, walk_append]
  cases hwalk : walk tree links [] before with
  | found l k =>
    rw [Outcome.andThen, walk_of_not_isDirectory (h l k hwalk)]
    exact ⟨_, rfl⟩
  | missing l n rest =>
    cases rest with
    | nil | cons first others => exact ⟨_, rfl⟩
  | notDirectory | tooManyLinks => exact ⟨_, rfl⟩

section MakeAlong

variable {tree : Tree ν κ} {links : ℕ} {location : List ν}

theorem isDirectory_put {n : ν} (hdirectory : tree.isDirectory location = true)
    (hnode : tree.node (location ++ [n]) = none) :
    (tree.put (location ++ [n]) .directory).isDirectory (location ++ [n]) = true := by
  have hold : tree.isDirectory (location ++ [n]) = false := by
    rw [Tree.isDirectory, hnode]
    rfl
  rw [Tree.isDirectory, Tree.node_put tree .directory hdirectory hold]
  rfl

/-- **The tree differs in the places made.** -/
theorem makeAlong_node (components : List (Component ν)) (l : List ν) :
    (makeAlong tree links location components).tree.node l =
      if l ∈ (makeAlong tree links location components).places then some .directory
      else tree.node l := by
  induction components generalizing tree links location with
  | nil => exact (if_neg not_mem_nil).symm
  | cons component rest ih =>
    rw [makeAlong]
    cases hmissing : missingName tree location component with
    | some n =>
      obtain ⟨-, hdirectory, hnode⟩ := missingName_eq_some hmissing
      simp only [ih, mem_cons]
      split_ifs with hrest heither heither
      · rfl
      · exact absurd (Or.inr hrest) heither
      · have heq : l = location ++ [n] := heither.resolve_right hrest
        have hold : tree.isDirectory (location ++ [n]) = false := by
          rw [Tree.isDirectory, hnode]
          rfl
        rw [heq]
        exact Tree.node_put tree .directory hdirectory hold
      · exact Tree.node_put_of_ne tree .directory fun heq => heither (Or.inl heq)
    | none =>
      cases walk tree links location [component] with
      | found next left =>
        by_cases hin : tree.isDirectory next = true
        · simp only [hin, if_true]
          exact ih
        · simp only [hin]
          exact (if_neg not_mem_nil).symm
      | missing m n others | notDirectory | tooManyLinks => exact (if_neg not_mem_nil).symm

/-- **What was made was missing.** -/
theorem makeAlong_places (components : List (Component ν)) {l : List ν}
    (h : l ∈ (makeAlong tree links location components).places) : tree.node l = none := by
  induction components generalizing tree links location with
  | nil => exact absurd h not_mem_nil
  | cons component rest ih =>
    rw [makeAlong] at h
    cases hmissing : missingName tree location component with
    | some n =>
      rw [hmissing] at h
      rcases mem_cons.mp h with heq | hrest
      · rw [heq]
        exact (missingName_eq_some hmissing).2.2
      · have hput := ih hrest
        by_contra hsome
        have hkept := extends_put .directory (missingName_eq_some hmissing).2.2 l
          (Option.ne_none_iff_isSome.mp hsome)
        exact hsome (hkept.symm.trans hput)
    | none =>
      rw [hmissing] at h
      dsimp only at h
      split at h
      · split_ifs at h with hnext
        · exact ih h
        · exact absurd h not_mem_nil
      · exact absurd h not_mem_nil

theorem extends_makeAlong (components : List (Component ν)) :
    Extends tree (makeAlong tree links location components).tree := by
  intro l hl
  rw [makeAlong_node]
  refine if_neg fun hmem => ?_
  rw [makeAlong_places components hmem] at hl
  cases hl

section

variable (hdirectory : tree.isDirectory location = true)
include hdirectory

/-- The walk through a directory that was made just now. -/
theorem walk_made {tree' : Tree ν κ} {n : ν} (hnode : tree.node (location ++ [n]) = none)
    (h : Extends (tree.put (location ++ [n]) .directory) tree') (rest : List (Component ν)) :
    walk tree' links location (.name n :: rest) = walk tree' links (location ++ [n]) rest := by
  have hmade := isDirectory_put hdirectory hnode
  have hnode' : tree'.node (location ++ [n]) = some .directory := by
    rw [h _ (Tree.isSome_of_isDirectory hmade)]
    obtain ⟨node, hput, hkind⟩ := (Option.any_eq_true _ _).mp hmade
    cases node with
    | directory => exact hput
    | file content | link target => cases hkind
  rw [walk_cons, walk_name (h.isDirectory ((extends_put _ hnode).isDirectory hdirectory)) hnode' rfl]
  rfl

variable {components : List (Component ν)}

/-- **The path then leads where it has been made to lead.** -/
theorem walk_makeAlong {l : List ν} {k : ℕ}
    (h : (makeAlong tree links location components).reached = some (l, k)) :
    walk (makeAlong tree links location components).tree links location components = .found l k ∧
      (makeAlong tree links location components).tree.isDirectory l = true := by
  induction components generalizing tree links location with
  | nil =>
    cases h
    exact ⟨walk_nil _ _ _, hdirectory⟩
  | cons component rest ih =>
    rw [makeAlong] at h ⊢
    cases hmissing : missingName tree location component with
    | some n =>
      rw [hmissing] at h
      obtain ⟨rfl, -, hnode⟩ := missingName_eq_some hmissing
      obtain ⟨hwalk, hreached⟩ := ih (isDirectory_put hdirectory hnode) h
      refine ⟨?_, hreached⟩
      rw [walk_made hdirectory hnode (extends_makeAlong rest)]
      exact hwalk
    | none =>
      rw [hmissing] at h
      dsimp only at h ⊢
      cases hnext : walk tree links location [component] with
      | found next left =>
        rw [hnext] at h
        dsimp only at h ⊢
        by_cases hin : tree.isDirectory next = true
        · simp only [hin, if_true] at h ⊢
          obtain ⟨hwalk, hreached⟩ := ih hin h
          refine ⟨?_, hreached⟩
          rw [walk_cons, walk_extends (extends_makeAlong rest) hnext]
          exact hwalk
        · simp only [hin, if_false, Bool.false_eq_true, reduceCtorEq] at h
      | missing m n others | notDirectory | tooManyLinks => rw [hnext] at h; cases h

/-- A path that cannot be made does not lead to a directory. -/
theorem not_isDirectory_of_makeAlong {l : List ν} {k : ℕ}
    (h : (makeAlong tree links location components).reached = none)
    (hwalk : walk (makeAlong tree links location components).tree links location components =
      .found l k) :
    (makeAlong tree links location components).tree.isDirectory l = false := by
  induction components generalizing tree links location with
  | nil => cases h
  | cons component rest ih =>
    rw [makeAlong] at h hwalk ⊢
    cases hmissing : missingName tree location component with
    | some n =>
      rw [hmissing] at h hwalk
      obtain ⟨rfl, -, hnode⟩ := missingName_eq_some hmissing
      dsimp only at hwalk ⊢
      rw [walk_made hdirectory hnode (extends_makeAlong rest)] at hwalk
      exact ih (isDirectory_put hdirectory hnode) h hwalk
    | none =>
      rw [hmissing] at h hwalk
      dsimp only at h hwalk ⊢
      cases hnext : walk tree links location [component] with
      | found next left =>
        rw [hnext] at h hwalk
        dsimp only at h hwalk ⊢
        split_ifs at h hwalk ⊢ with hin
        · rw [walk_cons, walk_extends (extends_makeAlong rest) hnext] at hwalk
          exact ih hin h hwalk
        · rw [walk_cons, hnext] at hwalk
          cases rest with
          | nil =>
            rw [Outcome.andThen, walk_nil] at hwalk
            cases hwalk
            exact eq_false_of_ne_true hin
          | cons second others =>
            rw [Outcome.andThen, walk_of_not_isDirectory (eq_false_of_ne_true hin)] at hwalk
            cases hwalk
      | missing m n others | notDirectory | tooManyLinks =>
        rw [hnext] at hwalk
        rw [walk_cons, hnext] at hwalk
        cases hwalk

/-- Nothing is made for a path that misses nothing. -/
theorem makeAlong_of_not_missing
    (h : ∀ l n rest, walk tree links location components ≠ .missing l n rest) :
    (makeAlong tree links location components).tree = tree ∧
      (makeAlong tree links location components).places = [] := by
  induction components generalizing tree links location with
  | nil => exact ⟨rfl, rfl⟩
  | cons component rest ih =>
    rw [makeAlong]
    cases hmissing : missingName tree location component with
    | some n =>
      obtain ⟨rfl, -, hnode⟩ := missingName_eq_some hmissing
      refine absurd ?_ (h location n rest)
      rw [walk_cons, walk_missing hdirectory hnode]
      rfl
    | none =>
      dsimp only
      split
      · next next left hnext =>
        split_ifs with hin
        · refine ih hin fun l n others => ?_
          rw [walk_cons, hnext] at h
          exact h l n others
        · exact ⟨rfl, rfl⟩
      · exact ⟨rfl, rfl⟩

end

theorem makeAlong_concat (components : List (Component ν)) (component : Component ν) :
    makeAlong tree links location (components ++ [component]) =
      match (makeAlong tree links location components).reached with
      | none => makeAlong tree links location components
      | some (l, k) =>
          let made :=
            makeAlong (makeAlong tree links location components).tree k l [component]
          { made with places := (makeAlong tree links location components).places ++ made.places } := by
  induction components generalizing tree links location with
  | nil => rfl
  | cons first rest ih =>
    rw [cons_append, makeAlong, makeAlong]
    cases hmissing : missingName tree location first with
    | some n =>
      dsimp only
      rw [ih]
      split <;> rfl
    | none =>
      dsimp only
      split
      · split_ifs
        · exact ih
        · rfl
      · rfl

end MakeAlong

end Posix
