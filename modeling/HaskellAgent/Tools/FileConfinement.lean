import HaskellAgent.Tools.FileSystem

/-!
# What a tool can write

A path is judged as it is spelled.  That is where it leads as long as it meets no link.  What exists
is made canonical; but behind a missing component `..` leads back to what exists, once the component
has been made, and on into a link that nobody has looked at.
-/

open List Option

namespace HaskellAgent
namespace FileSystem

open Posix Framing

/-! ### Spelling -/

def spelledLocation : Location → List (Component Text) → Location
  | location, [] => location
  | location, .name n :: rest => spelledLocation (location ++ [n]) rest
  | location, .parent :: rest => spelledLocation location.dropLast rest
  | location, .current :: rest => spelledLocation location rest
  | location, .blank :: rest => spelledLocation location rest

def meetsLink (tree : FileTree) : Location → List (Component Text) → Bool
  | _, [] => false
  | location, .name n :: rest =>
      tree.isLink (location ++ [n]) || meetsLink tree (location ++ [n]) rest
  | location, .parent :: rest => meetsLink tree location.dropLast rest
  | location, .current :: rest => meetsLink tree location rest
  | location, .blank :: rest => meetsLink tree location rest

/-- What is in a root, or in what a missing root is spelled as. -/
def inRegion (roots : List OsPath) (location : Location) : Prop :=
  ∃ root ∈ roots, spelledLocation [] root.components <+: location

/-- A root that is a location in the tree, and a path that is judged inside. -/
def Confines (tree : FileTree) (root path : OsPath) : Prop :=
  ∃ location, root = ofLocation location ∧ (tree.node location).isSome = true ∧
    isInside root path = true

theorem spelledLocation_append (location : Location) (xs ys : List (Component Text)) :
    spelledLocation location (xs ++ ys) = spelledLocation (spelledLocation location xs) ys := by
  induction xs generalizing location with
  | nil => rfl
  | cons component rest ih => cases component <;> exact ih _

theorem spelledLocation_names (location names : Location) :
    spelledLocation location (names.map .name) = location ++ names := by
  induction names generalizing location with
  | nil => exact (List.append_nil location).symm
  | cons n rest ih =>
    rw [map_cons, spelledLocation, ih, append_assoc]
    rfl

theorem meetsLink_append (tree : FileTree) (location : Location) (xs ys : List (Component Text)) :
    meetsLink tree location (xs ++ ys) =
      (meetsLink tree location xs || meetsLink tree (spelledLocation location xs) ys) := by
  induction xs generalizing location with
  | nil => rfl
  | cons component rest ih =>
    cases component with
    | name n =>
      rw [cons_append, meetsLink, meetsLink, ih, Bool.or_assoc]
      rfl
    | parent | current | blank => exact ih _

theorem meetsLink_congr {tree tree' : FileTree} (h : ∀ l, tree'.isLink l = tree.isLink l)
    (location : Location) (components : List (Component Text)) :
    meetsLink tree' location components = meetsLink tree location components := by
  induction components generalizing location with
  | nil => rfl
  | cons component rest ih =>
    cases component with
    | name n => rw [meetsLink, meetsLink, h, ih]
    | parent | current | blank => exact ih _

theorem isLink_makeAlong {tree : FileTree} {links : ℕ} {location : Location}
    (components : List (Component Text)) (l : Location) :
    (makeAlong tree links location components).tree.isLink l = tree.isLink l := by
  rw [Tree.isLink, makeAlong_node, Tree.isLink]
  split_ifs with hmem
  · rw [makeAlong_places components hmem]
    rfl
  · rfl

/-! ### Making the way -/

/-- Components that stay where they are make no difference. -/
theorem makeAlong_filter {tree : FileTree} {links : ℕ} {location : Location}
    (hdirectory : tree.isDirectory location = true) (components : List (Component Text)) :
    makeAlong tree links location
        ((components.filter (· != .blank)).filter (· != .current)) =
      makeAlong tree links location components := by
  induction components generalizing tree links location with
  | nil => rfl
  | cons component rest ih =>
    have hstay : component = .blank ∨ component = .current →
        makeAlong tree links location (component :: rest) =
          makeAlong tree links location rest := by
      intro hcomponent
      have hmissing : missingName tree location component = none := by
        rcases hcomponent with rfl | rfl <;> rfl
      simp only [makeAlong, hmissing, walk_stay hdirectory hcomponent, hdirectory, if_true]
    have hgo : component ≠ .blank → component ≠ .current →
        makeAlong tree links location
            (component :: (rest.filter (· != .blank)).filter (· != .current)) =
          makeAlong tree links location (component :: rest) := by
      intro _ _
      rw [makeAlong, makeAlong]
      cases hmissing : missingName tree location component with
      | some n =>
        obtain ⟨-, -, hnode⟩ := missingName_eq_some hmissing
        dsimp only
        rw [ih (isDirectory_put hdirectory hnode)]
      | none =>
        dsimp only
        split
        · split_ifs with hin
          · exact ih hin
          · rfl
        · rfl
    cases component with
    | blank => exact (ih hdirectory).trans (hstay (Or.inl rfl)).symm
    | current => exact (ih hdirectory).trans (hstay (Or.inr rfl)).symm
    | parent | name n => exact hgo (by simp) (by simp)

theorem isDirectory_root (tree : FileTree) : tree.isDirectory [] = true := tree.root

section Mkdir

variable {tree : FileTree} {before : List (Component Text)} {location : Location} {left : ℕ}

theorem mkdir_of_missing {n : Text} {rest : List (Component Text)}
    (h : walk tree maximumLinks [] before = .missing location n rest)
    (component : Component Text) :
    mkdir tree maximumLinks (before ++ [component]) = .error .noEntry := by
  have hwhole : walk tree maximumLinks [] (before ++ [component]) =
      .missing location n (rest ++ [component]) := by
    rw [walk_append, h]
    rfl
  cases component <;>
    simp only [mkdir, List.getLast?_concat, dropLast_concat, h, hwhole, Outcome.errno]

theorem mkdir_of_not_isDirectory
    (hmissing : ∀ l n rest, walk tree maximumLinks [] before ≠ .missing l n rest)
    (hdirectory : ∀ l k, walk tree maximumLinks [] before = .found l k →
      tree.isDirectory l = false) (component : Component Text) :
    ∃ err, mkdir tree maximumLinks (before ++ [component]) = .error err ∧ err ≠ .noEntry ∧
      err ≠ .exists := by
  have hwhole : walk tree maximumLinks [] (before ++ [component]) =
      (walk tree maximumLinks [] before).andThen tree [component] := walk_append _ _ _ _ _
  cases hwalk : walk tree maximumLinks [] before with
  | found l k =>
    have hfile := hdirectory l k hwalk
    rw [hwalk, Outcome.andThen, walk_of_not_isDirectory hfile] at hwhole
    refine ⟨.notDirectory, ?_, by simp, by simp⟩
    cases component <;>
      simp only [mkdir, List.getLast?_concat, dropLast_concat, hwalk, hfile, hwhole,
        Outcome.errno, Bool.false_eq_true, if_false]
  | missing l n rest => exact absurd hwalk (hmissing l n rest)
  | notDirectory =>
    rw [hwalk] at hwhole
    refine ⟨.notDirectory, ?_, by simp, by simp⟩
    cases component <;>
      simp only [mkdir, List.getLast?_concat, dropLast_concat, hwalk, hwhole, Outcome.andThen,
        Outcome.errno]
  | tooManyLinks =>
    rw [hwalk] at hwhole
    refine ⟨.tooManyLinks, ?_, by simp, by simp⟩
    cases component <;>
      simp only [mkdir, List.getLast?_concat, dropLast_concat, hwalk, hwhole, Outcome.andThen,
        Outcome.errno]

theorem mkdir_of_missingName {component : Component Text} {n : Text}
    (hbefore : walk tree maximumLinks [] before = .found location left)
    (h : missingName tree location component = some n) :
    mkdir tree maximumLinks (before ++ [component]) =
      .ok (tree.put (location ++ [n]) .directory) := by
  obtain ⟨rfl, hdirectory, hnode⟩ := missingName_eq_some h
  simp only [mkdir, List.getLast?_concat, dropLast_concat, hbefore, hdirectory, hnode,
    isNone_none, if_true]

theorem mkdir_of_missingName_eq_none {component : Component Text}
    (hbefore : walk tree maximumLinks [] before = .found location left)
    (hdirectory : tree.isDirectory location = true)
    (h : missingName tree location component = none) :
    mkdir tree maximumLinks (before ++ [component]) = .error .exists := by
  have hwhole : walk tree maximumLinks [] (before ++ [component]) =
      walk tree left location [component] := by
    rw [walk_append, hbefore]
    rfl
  cases component with
  | name n =>
    have hnode : (tree.node (location ++ [n])).isNone = false :=
      isNone_eq_false_iff.mpr
        (ne_none_iff_isSome.mp (node_ne_none_of_missingName hdirectory h))
    simp only [mkdir, List.getLast?_concat, dropLast_concat, hbefore, hdirectory, hnode,
      if_true, Bool.false_eq_true, if_false]
  | parent =>
    simp only [mkdir, List.getLast?_concat, hwhole, walk_parent hdirectory, Outcome.errno]
  | current =>
    simp only [mkdir, List.getLast?_concat, hwhole, walk_stay hdirectory (Or.inr rfl),
      Outcome.errno]
  | blank =>
    simp only [mkdir, List.getLast?_concat, hwhole, walk_stay hdirectory (Or.inl rfl),
      Outcome.errno]

/-- The last directory of a path, when those before it are there. -/
theorem createDir_last (component : Component Text)
    (hbefore : walk tree maximumLinks [] before = .found location left)
    (hdirectory : tree.isDirectory location = true) (notExist : FileTree × Except Errno Unit) :
    (createDir tree (before ++ [component]) notExist).1 =
        (makeAlong tree left location [component]).tree ∧
      ((makeAlong tree left location [component]).reached.isSome = true →
        (createDir tree (before ++ [component]) notExist).2 = .ok ()) := by
  rw [makeAlong, createDir]
  cases hmissing : missingName tree location component with
  | some n =>
    rw [mkdir_of_missingName hbefore hmissing]
    exact ⟨rfl, fun _ => rfl⟩
  | none =>
    have hwhole : walk tree maximumLinks [] (before ++ [component]) =
        walk tree left location [component] := by
      rw [walk_append, hbefore]
      rfl
    rw [mkdir_of_missingName_eq_none hbefore hdirectory hmissing]
    dsimp only
    rw [hwhole]
    cases walk tree left location [component] with
    | found next more =>
      by_cases hin : tree.isDirectory next = true
      · simp only [hin, if_true]
        exact ⟨rfl, fun _ => trivial⟩
      · simp only [hin]
        exact ⟨rfl, by simp⟩
    | missing l n rest | notDirectory | tooManyLinks => exact ⟨rfl, fun _ => rfl⟩

/-- A directory is not made in what is not a directory. -/
theorem createDir_of_not_isDirectory
    (hdirectory : ∀ l k, walk tree maximumLinks [] before = .found l k →
      tree.isDirectory l = false) (component : Component Text)
    {notExist : FileTree × Except Errno Unit} (hnot : notExist.1 = tree) :
    (createDir tree (before ++ [component]) notExist).1 = tree := by
  by_cases hmissing : ∀ l n rest, walk tree maximumLinks [] before ≠ .missing l n rest
  · obtain ⟨err, hmkdir, hentry, hexists⟩ :=
      mkdir_of_not_isDirectory hmissing hdirectory component
    rw [createDir, hmkdir]
    cases err with
    | noEntry => exact absurd rfl hentry
    | «exists» => exact absurd rfl hexists
    | _ => rfl
  · push Not at hmissing
    obtain ⟨l, n, rest, hwalk⟩ := hmissing
    rw [createDir, mkdir_of_missing hwalk]
    exact hnot

end Mkdir

theorem createDirs_inits_concat (tree : FileTree) (before : List (Component Text))
    (component : Component Text) :
    createDirs tree (before ++ [component]).inits.reverse =
      createDir tree (before ++ [component])
        (match createDirs tree before.inits.reverse with
          | (made, .ok ()) => createDir made (before ++ [component]) (made, .error .noEntry)
          | (made, .error err) => (made, .error err)) := by
  have hinits : (before ++ [component]).inits.reverse =
      (before ++ [component]) :: before.inits.reverse := by
    simp [inits_append]
  have hne : before.inits.reverse ≠ [] := by
    intro hnil
    have hmem := (mem_inits [] before).mpr (List.nil_prefix)
    rw [reverse_eq_nil_iff.mp hnil] at hmem
    cases hmem
  rw [hinits]
  cases hdirs : before.inits.reverse with
  | nil => exact absurd hdirs hne
  | cons dir dirs => rfl

/-- **The directories on the way of a path are made one by one.** -/
theorem createDirs_spec (tree : FileTree) (components : List (Component Text)) :
    (createDirs tree components.inits.reverse).1 =
        (makeAlong tree maximumLinks [] components).tree ∧
      ((makeAlong tree maximumLinks [] components).reached.isSome = true →
        (createDirs tree components.inits.reverse).2 = .ok ()) := by
  induction components using List.reverseRecOn with
  | nil =>
    have hroot : mkdir tree maximumLinks [] = .error .exists := by
      simp only [mkdir, List.getLast?_nil, walk_nil, Outcome.errno]
    have hcreate : createDir tree [] (tree, .error .noEntry) = (tree, .ok ()) := by
      simp only [createDir, hroot, walk_nil, isDirectory_root, if_true]
    rw [show createDirs tree ([] : List (Component Text)).inits.reverse = (tree, .ok ()) from
      hcreate]
    exact ⟨rfl, fun _ => rfl⟩
  | append_singleton before component ih =>
    obtain ⟨hmade, hdone⟩ := ih
    rw [createDirs_inits_concat, makeAlong_concat]
    cases hreached : (makeAlong tree maximumLinks [] before).reached with
    | none =>
      refine ⟨?_, fun h => ?_⟩
      · dsimp only
        by_cases hmissing : ∀ l n rest, walk tree maximumLinks [] before ≠ .missing l n rest
        · -- the way is blocked, and nothing is made
          have hsame := (makeAlong_of_not_missing (isDirectory_root tree) hmissing).1
          have hblocked : ∀ l k, walk tree maximumLinks [] before = .found l k →
              tree.isDirectory l = false := by
            intro l k hwalk
            have hnot := not_isDirectory_of_makeAlong (isDirectory_root tree) hreached
              (hsame.symm ▸ hwalk)
            rwa [hsame] at hnot
          obtain ⟨err, hmkdir, hentry, hexists⟩ :=
            mkdir_of_not_isDirectory hmissing hblocked component
          rw [createDir, hmkdir, hsame]
          cases err with
          | noEntry => exact absurd rfl hentry
          | «exists» => exact absurd rfl hexists
          | _ => rfl
        · push Not at hmissing
          obtain ⟨l, n, rest, hwalk⟩ := hmissing
          rw [createDir, mkdir_of_missing hwalk]
          rcases hdirs : createDirs tree before.inits.reverse with ⟨made, ⟨err⟩ | ⟨⟨⟩⟩⟩
          · rw [← hmade, hdirs]
          · rw [hdirs] at hmade
            subst hmade
            exact createDir_of_not_isDirectory
              (fun l k => not_isDirectory_of_makeAlong (isDirectory_root tree) hreached) _ rfl
      · dsimp only at h
        rw [hreached] at h
        cases h
    | some end_ =>
      obtain ⟨location, left⟩ := end_
      obtain ⟨hwalk, hdirectory⟩ := walk_makeAlong (isDirectory_root tree) hreached
      dsimp only
      by_cases hmissing : ∀ l n rest, walk tree maximumLinks [] before ≠ .missing l n rest
      · have hsame := (makeAlong_of_not_missing (isDirectory_root tree) hmissing).1
        rw [hsame] at hwalk hdirectory ⊢
        exact createDir_last component hwalk hdirectory _
      · push Not at hmissing
        obtain ⟨l, n, rest, hmissing⟩ := hmissing
        have hok := hdone (by rw [hreached]; rfl)
        have hdirs : createDirs tree before.inits.reverse =
            ((makeAlong tree maximumLinks [] before).tree, .ok ()) := Prod.ext hmade hok
        rw [createDir, mkdir_of_missing hmissing, hdirs]
        exact createDir_last component hwalk hdirectory _

/-! ### Writing -/

theorem createDirectoryIfMissing_spec (tree : FileTree) (path : OsPath) :
    (createDirectoryIfMissing tree path).1 =
        (makeAlong tree maximumLinks [] path.components).tree ∧
      ((makeAlong tree maximumLinks [] path.components).reached.isSome = true →
        (createDirectoryIfMissing tree path).2 = .ok ()) := by
  have hspec := createDirs_spec tree (normalise path).components
  rwa [show (normalise path).components =
      (path.components.filter (· != .blank)).filter (· != .current) from rfl,
    makeAlong_filter (isDirectory_root tree)] at hspec

section Write

variable {host : Host} {tree : FileTree} {path : OsPath}

/-- A path that cannot be made is not written. -/
theorem writeTextFile_of_not_reached
    (h : (makeAlong tree maximumLinks [] path.components.dropLast).reached = none)
    (content : Text) :
    (writeTextFile host tree path content).1 =
      (makeAlong tree maximumLinks [] path.components.dropLast).tree := by
  obtain ⟨hmade, -⟩ := createDirectoryIfMissing_spec tree (takeDirectory path)
  rw [writeTextFile]
  rcases hdirs : createDirectoryIfMissing tree (takeDirectory path) with ⟨made, ⟨err⟩ | ⟨⟨⟩⟩⟩
  · rw [hdirs] at hmade
    exact hmade
  · rw [hdirs] at hmade
    dsimp only at hmade ⊢
    subst hmade
    rcases eq_nil_or_concat path.components with hnil | ⟨before, component, hconcat⟩
    · rw [hnil] at h
      cases h
    · rw [concat_eq_append] at hconcat
      rw [show (takeDirectory path).components = path.components.dropLast from rfl]
      rw [hconcat, dropLast_concat] at h ⊢
      obtain ⟨err, herr⟩ := writeFile_of_not_isDirectory
        (fun l k => not_isDirectory_of_makeAlong (isDirectory_root tree) h) component
        (encodeUtf8 content)
      rw [herr]

/-- A file is written where the path has been made to lead. -/
theorem writeTextFile_of_reached {before : List (Component Text)} {component : Component Text}
    (hpath : path.components = before ++ [component]) {location : Location} {left : ℕ}
    (h : (makeAlong tree maximumLinks [] before).reached = some (location, left))
    (content : Text) :
    (∀ place, filePlace (makeAlong tree maximumLinks [] before).tree left location component =
        [place] →
      (writeTextFile host tree path content).1 =
        (makeAlong tree maximumLinks [] before).tree.put place (.file (encodeUtf8 content))) ∧
    (filePlace (makeAlong tree maximumLinks [] before).tree left location component = [] →
      (writeTextFile host tree path content).1 =
        (makeAlong tree maximumLinks [] before).tree) := by
  obtain ⟨hmade, hdone⟩ := createDirectoryIfMissing_spec tree (takeDirectory path)
  have hbefore : (takeDirectory path).components = before := by
    rw [show (takeDirectory path).components = path.components.dropLast from rfl, hpath,
      dropLast_concat]
  rw [hbefore] at hmade hdone
  have hdirs : createDirectoryIfMissing tree (takeDirectory path) =
      ((makeAlong tree maximumLinks [] before).tree, .ok ()) :=
    Prod.ext hmade (hdone (by rw [h]; rfl))
  obtain ⟨hplace, hnone⟩ := writeFile_of_filePlace component
    (walk_makeAlong (isDirectory_root tree) h).1 (encodeUtf8 content)
  constructor
  · intro place hfile
    rw [writeTextFile, hdirs, hpath]
    dsimp only
    rw [hplace place hfile]
  · intro hfile
    obtain ⟨err, herr⟩ := hnone hfile
    rw [writeTextFile, hdirs, hpath]
    dsimp only
    rw [herr]

theorem places_of_concat {before : List (Component Text)} {component : Component Text} :
    places tree maximumLinks (before ++ [component]) =
      (makeAlong tree maximumLinks [] before).places ++
        match (makeAlong tree maximumLinks [] before).reached with
        | some (location, left) =>
            filePlace (makeAlong tree maximumLinks [] before).tree left location component
        | none => [] := by
  rw [places, dropLast_concat, List.getLast?_concat]
  cases (makeAlong tree maximumLinks [] before).reached <;> rfl

/-- **What is written is what the path names.** -/
theorem node_writeTextFile (content : Text) {l : Location}
    (h : (writeTextFile host tree path content).1.node l ≠ tree.node l) :
    l ∈ places tree maximumLinks path.components := by
  have hmade : ∀ before,
      (makeAlong tree maximumLinks [] before).tree.node l ≠ tree.node l →
        l ∈ (makeAlong tree maximumLinks [] before).places := by
    intro before hne
    rw [makeAlong_node] at hne
    by_contra hnot
    exact hne (if_neg hnot)
  rcases eq_nil_or_concat path.components with hnil | ⟨before, component, hconcat⟩
  · have hroot : path.components.dropLast = [] := by rw [hnil]; rfl
    have hfile : ∃ err, writeFile tree maximumLinks path.components (encodeUtf8 content) =
        .error err := by
      rw [hnil, writeFile, walk_nil]
      exact ⟨.isDirectory, if_pos (isDirectory_root tree)⟩
    obtain ⟨err, herr⟩ := hfile
    have hdirs : createDirectoryIfMissing tree (takeDirectory path) = (tree, .ok ()) := by
      obtain ⟨htree, hdone⟩ := createDirectoryIfMissing_spec tree (takeDirectory path)
      rw [show (takeDirectory path).components = [] from hroot] at htree hdone
      exact Prod.ext htree (hdone rfl)
    rw [writeTextFile, hdirs] at h
    dsimp only at h
    rw [herr] at h
    exact absurd rfl h
  · rw [concat_eq_append] at hconcat
    rw [hconcat, places_of_concat]
    cases hreached : (makeAlong tree maximumLinks [] before).reached with
    | none =>
      rw [writeTextFile_of_not_reached (by rw [hconcat, dropLast_concat]; exact hreached),
        hconcat, dropLast_concat] at h
      exact mem_append_left _ (hmade before h)
    | some end_ =>
      obtain ⟨location, left⟩ := end_
      obtain ⟨hput, hsame⟩ := @writeTextFile_of_reached host tree path _ _ hconcat _ _
        hreached content
      rcases filePlace_eq (makeAlong tree maximumLinks [] before).tree left location component
        with hnone | ⟨place, hplace⟩
      · rw [hsame hnone] at h
        exact mem_append_left _ (hmade before h)
      · by_cases heq : l = place
        · refine mem_append_right _ ?_
          dsimp only
          rw [heq, hplace]
          exact mem_singleton_self place
        · rw [hput place hplace, Tree.node_put_of_ne _ _ heq] at h
          exact mem_append_left _ (hmade before h)

/-- A text whose bytes are not those of a file. -/
theorem exists_content (node : Option (Node Text Bytes)) :
    ∃ content : Text, some (Node.file (encodeUtf8 content)) ≠ node := by
  by_cases h : some (Node.file (encodeUtf8 [])) = node
  · refine ⟨['x'], fun h' => ?_⟩
    have hsame := some.inj (h'.trans h.symm)
    have hbytes : encodeUtf8 ['x'] = encodeUtf8 [] := Node.file.inj hsame
    have hlength := congrArg List.length hbytes
    rw [length_encodeUtf8, length_encodeUtf8] at hlength
    exact absurd hlength (by decide)
  · exact ⟨[], h⟩

/-- **All of what the path names is written**, with some content. -/
theorem exists_content_writeTextFile {l : Location}
    (h : l ∈ places tree maximumLinks path.components) :
    ∃ content, (writeTextFile host tree path content).1.node l ≠ tree.node l := by
  rcases eq_nil_or_concat path.components with hnil | ⟨before, component, hconcat⟩
  · rw [hnil] at h
    exact absurd h not_mem_nil
  · rw [concat_eq_append] at hconcat
    rw [hconcat, places_of_concat] at h
    have hfile : ∀ {location left}, (makeAlong tree maximumLinks [] before).reached =
        some (location, left) → ∀ {place}, filePlace (makeAlong tree maximumLinks [] before).tree
          left location component = [place] → ∀ content,
        (writeTextFile host tree path content).1.node place =
          some (.file (encodeUtf8 content)) := by
      intro location left hreached place hplace content
      rw [(writeTextFile_of_reached hconcat hreached content).1 place hplace]
      exact node_put_filePlace (walk_makeAlong (isDirectory_root tree) hreached).2
        (hplace ▸ mem_singleton_self place) _
    have hmade : l ∈ (makeAlong tree maximumLinks [] before).places →
        (makeAlong tree maximumLinks [] before).tree.node l ≠ tree.node l := by
      intro hmem hsame
      rw [makeAlong_node, if_pos hmem, makeAlong_places before hmem] at hsame
      cases hsame
    cases hreached : (makeAlong tree maximumLinks [] before).reached with
    | none =>
      rw [hreached, List.append_nil] at h
      refine ⟨[], ?_⟩
      rw [writeTextFile_of_not_reached (by rw [hconcat, dropLast_concat]; exact hreached),
        hconcat, dropLast_concat]
      exact hmade h
    | some end_ =>
      obtain ⟨location, left⟩ := end_
      rw [hreached] at h
      dsimp only at h
      rcases filePlace_eq (makeAlong tree maximumLinks [] before).tree left location component
        with hnone | ⟨place, hplace⟩
      · rw [hnone, List.append_nil] at h
        refine ⟨[], ?_⟩
        rw [(writeTextFile_of_reached hconcat hreached []).2 hnone]
        exact hmade h
      · obtain ⟨content, hcontent⟩ := exists_content (tree.node l)
        refine ⟨content, ?_⟩
        by_cases heq : l = place
        · rw [heq, hfile hreached hplace, ← heq]
          exact hcontent
        · rw [(writeTextFile_of_reached hconcat hreached content).1 place hplace,
            Tree.node_put_of_ne _ _ heq]
          rw [hplace] at h
          exact hmade ((mem_append.mp h).resolve_right fun hmem =>
            heq (mem_singleton.mp hmem))

end Write

/-! ### Judging -/

section Judged

variable {tree : FileTree} {path : OsPath}

/-- A component that is no link leads where it is spelled to. -/
theorem walk_component {links : ℕ} {location : Location} {component : Component Text}
    (hlink : meetsLink tree location [component] = false) {l : Location} {k : ℕ}
    (h : walk tree links location [component] = .found l k) :
    l = spelledLocation location [component] := by
  by_cases hdirectory : tree.isDirectory location = true
  · cases component with
    | blank =>
      rw [walk_stay hdirectory (Or.inl rfl)] at h
      cases h
      rfl
    | current =>
      rw [walk_stay hdirectory (Or.inr rfl)] at h
      cases h
      rfl
    | parent =>
      rw [walk_parent hdirectory] at h
      cases h
      rfl
    | name n =>
      cases hnode : tree.node (location ++ [n]) with
      | none =>
        rw [walk_missing hdirectory hnode] at h
        cases h
      | some node =>
        have hkind : node.isLink = false := by
          rw [meetsLink, meetsLink, Bool.or_false, Tree.isLink, hnode] at hlink
          exact hlink
        rw [walk_name hdirectory hnode hkind] at h
        cases h
        rfl
  · rw [walk_of_not_isDirectory (eq_false_of_ne_true hdirectory)] at h
    cases h

/-- **A path without links leads where it is spelled to.** -/
theorem makeAlong_of_not_meetsLink {links : ℕ} {location : Location}
    {components : List (Component Text)} (hlink : meetsLink tree location components = false) :
    (∀ l ∈ (makeAlong tree links location components).places,
      ∃ xs, xs <+: components ∧ l = spelledLocation location xs) ∧
    ∀ l k, (makeAlong tree links location components).reached = some (l, k) →
      l = spelledLocation location components := by
  induction components generalizing tree links location with
  | nil =>
    refine ⟨fun l h => absurd h not_mem_nil, fun l k h => ?_⟩
    cases h
    rfl
  | cons component rest ih =>
    rw [makeAlong]
    cases hmissing : missingName tree location component with
    | some n =>
      obtain ⟨rfl, hdirectory, hnode⟩ := missingName_eq_some hmissing
      rw [meetsLink, Bool.or_eq_false_iff] at hlink
      have hput : ∀ l, (tree.put (location ++ [n]) .directory).isLink l = tree.isLink l := by
        intro l
        by_cases heq : l = location ++ [n]
        · rw [heq, hlink.1]
          have hmade := isDirectory_put hdirectory hnode
          rw [Tree.isDirectory] at hmade
          rw [Tree.isLink]
          cases hnew : (tree.put (location ++ [n]) .directory).node (location ++ [n]) with
          | none => rfl
          | some node =>
            rw [hnew] at hmade
            cases node with
            | directory | file content => rfl
            | link target => cases hmade
        · rw [Tree.isLink, Tree.node_put_of_ne _ _ heq, Tree.isLink]
      obtain ⟨hplaces, hreached⟩ :=
        @ih (tree.put (location ++ [n]) .directory) links (location ++ [n])
          ((meetsLink_congr hput _ _).trans hlink.2)
      refine ⟨fun l hl => ?_, hreached⟩
      rcases mem_cons.mp hl with rfl | hl
      · exact ⟨[.name n], (prefix_cons_inj _).mpr nil_prefix, rfl⟩
      · obtain ⟨xs, hxs, rfl⟩ := hplaces l hl
        exact ⟨.name n :: xs, (prefix_cons_inj _).mpr hxs, rfl⟩
    | none =>
      rw [show component :: rest = [component] ++ rest from rfl, meetsLink_append,
        Bool.or_eq_false_iff] at hlink
      dsimp only
      cases hnext : walk tree links location [component] with
      | found next left =>
        have heq := walk_component hlink.1 hnext
        by_cases hin : tree.isDirectory next = true
        · simp only [hin, if_true]
          obtain ⟨hplaces, hreached⟩ := @ih tree left next (heq ▸ hlink.2)
          have hspelled : ∀ ys, spelledLocation next ys =
              spelledLocation location (component :: ys) := by
            intro ys
            rw [heq, ← spelledLocation_append]
            rfl
          refine ⟨fun l hl => ?_, fun l k h => ?_⟩
          · obtain ⟨xs, hxs, rfl⟩ := hplaces l hl
            exact ⟨component :: xs, (prefix_cons_inj _).mpr hxs, hspelled xs⟩
          · rw [hreached l k h, hspelled]
        · simp only [hin]
          exact ⟨fun l h => absurd h not_mem_nil, by simp⟩
      | missing l n others =>
        exact ⟨fun l h => absurd h not_mem_nil, by simp⟩
      | notDirectory | tooManyLinks => exact ⟨fun l h => absurd h not_mem_nil, by simp⟩

/-- The file is spelled as the path is, unless the path is a link. -/
theorem filePlace_of_not_meetsLink {links : ℕ} {location place : Location}
    {component : Component Text} (hlink : meetsLink tree location [component] = false)
    (hdirectory : tree.isDirectory location = true)
    (h : place ∈ filePlace tree links location component) :
    place = spelledLocation location [component] ∧ tree.isDirectory place = false := by
  unfold filePlace at h
  cases hwalk : walk tree links location [component] with
  | found l k =>
    rw [hwalk] at h
    dsimp only at h
    split_ifs at h with hfile
    · exact absurd h not_mem_nil
    · rw [mem_singleton.mp h]
      exact ⟨walk_component hlink hwalk, eq_false_of_ne_true hfile⟩
  | missing l n rest =>
    rw [hwalk] at h
    cases component with
    | name m =>
      cases hnode : tree.node (location ++ [m]) with
      | none =>
        rw [walk_missing hdirectory hnode] at hwalk
        cases hwalk
        rw [mem_singleton.mp h]
        refine ⟨rfl, ?_⟩
        rw [Tree.isDirectory, hnode]
        rfl
      | some node =>
        have hkind : node.isLink = false := by
          rw [meetsLink, meetsLink, Bool.or_false, Tree.isLink, hnode] at hlink
          exact hlink
        rw [walk_name hdirectory hnode hkind] at hwalk
        cases hwalk
    | parent => rw [walk_parent hdirectory] at hwalk; cases hwalk
    | current => rw [walk_stay hdirectory (Or.inr rfl)] at hwalk; cases hwalk
    | blank => rw [walk_stay hdirectory (Or.inl rfl)] at hwalk; cases hwalk
  | notDirectory | tooManyLinks =>
    rw [hwalk] at h
    exact absurd h not_mem_nil

/-- What a path without links names is spelled as a part of it, and no directory is there. -/
theorem spelled_of_mem_places (hlink : meetsLink tree [] path.components = false) {l : Location}
    (h : l ∈ places tree maximumLinks path.components) :
    (∃ xs, xs <+: path.components ∧ l = spelledLocation [] xs) ∧ tree.isDirectory l = false := by
  have hmissing : ∀ before,
      l ∈ (makeAlong tree maximumLinks [] before).places → tree.isDirectory l = false := by
    intro before hmem
    rw [Tree.isDirectory, makeAlong_places before hmem]
    rfl
  rcases eq_nil_or_concat path.components with hnil | ⟨before, component, hconcat⟩
  · rw [hnil] at h
    exact absurd h not_mem_nil
  · rw [concat_eq_append] at hconcat
    rw [hconcat, places_of_concat] at h
    rw [hconcat] at hlink ⊢
    rw [meetsLink_append, Bool.or_eq_false_iff] at hlink
    obtain ⟨hplaces, hend⟩ := @makeAlong_of_not_meetsLink tree maximumLinks [] before hlink.1
    rcases mem_append.mp h with hmade | hfile
    · obtain ⟨xs, hxs, hl⟩ := hplaces l hmade
      exact ⟨⟨xs, hxs.trans (prefix_append before [component]), hl⟩, hmissing before hmade⟩
    · cases hreached : (makeAlong tree maximumLinks [] before).reached with
      | none =>
        rw [hreached] at hfile
        exact absurd hfile not_mem_nil
      | some end_ =>
        obtain ⟨location, left⟩ := end_
        rw [hreached] at hfile
        obtain ⟨-, hdirectory⟩ := walk_makeAlong (isDirectory_root tree) hreached
        have hlocation := hend location left hreached
        have hlast : meetsLink (makeAlong tree maximumLinks [] before).tree location [component] =
            false := by
          rw [meetsLink_congr (isLink_makeAlong before), hlocation]
          exact hlink.2
        obtain ⟨hl, hnot⟩ := filePlace_of_not_meetsLink hlast hdirectory hfile
        refine ⟨⟨before ++ [component], prefix_refl _, ?_⟩, ?_⟩
        · rw [hl, hlocation, ← spelledLocation_append]
        · by_contra hold
          have hkept := (@extends_makeAlong _ _ _ tree maximumLinks [] before).isDirectory
            (eq_true_of_ne_false hold)
          rw [hnot] at hkept
          cases hkept

theorem spelledLocation_filter (location : Location) (components : List (Component Text)) :
    spelledLocation location
        ((components.filter (· != .blank)).filter (· != .current)) =
      spelledLocation location components := by
  induction components generalizing location with
  | nil => rfl
  | cons component rest ih => cases component <;> exact ih _

theorem spelledLocation_filter_blank (location : Location) (components : List (Component Text)) :
    spelledLocation location (components.filter (· != .blank)) =
      spelledLocation location components := by
  induction components generalizing location with
  | nil => rfl
  | cons component rest ih => cases component <;> exact ih _

/-- Counting `..` against the depth keeps a path below the directory that it starts from. -/
theorem prefix_spelledLocation {root : Location} {depth : ℕ} {components xs : List (Component Text)}
    (h : staysWithinRoot depth components = true) (hxs : xs <+: components) {location : Location}
    (hroot : root <+: location) (hdepth : location.length = root.length + depth) :
    root <+: spelledLocation location xs := by
  induction components generalizing depth xs location with
  | nil =>
    rw [prefix_nil.mp hxs]
    exact hroot
  | cons component rest ih =>
    cases xs with
    | nil => exact hroot
    | cons first others =>
      obtain ⟨rfl, hothers⟩ := cons_prefix_cons.mp hxs
      cases first with
      | blank | current => exact ih h hothers hroot hdepth
      | name n =>
        refine ih h hothers (hroot.trans (prefix_append _ _)) ?_
        rw [length_append, length_singleton, hdepth]
        omega
      | parent =>
        rw [staysWithinRoot, Bool.and_eq_true, decide_eq_true_eq] at h
        refine ih h.2 hothers ?_ ?_
        · obtain ⟨rest, rfl⟩ := hroot
          rw [length_append] at hdepth
          have hne : rest ≠ [] := by
            rintro rfl
            rw [length_nil] at hdepth
            omega
          rw [dropLast_append_of_ne_nil hne]
          exact prefix_append _ _
        · rw [length_dropLast, hdepth]
          omega

theorem filter_names (location : Location) :
    ((location.map Component.name).filter (· != .blank)) = location.map .name ∧
      (location.map Component.name).filter (· != .current) = location.map .name := by
  constructor <;> rw [filter_eq_self] <;> intro component hmem <;>
    obtain ⟨n, -, rfl⟩ := List.mem_map.mp hmem <;> rfl

theorem prefix_of_prefix_names {xs : List (Component Text)} {location : Location}
    (h : xs <+: location.map .name) : spelledLocation [] xs <+: location := by
  rw [prefix_iff_eq_take.mp h, ← map_take, spelledLocation_names, nil_append]
  exact take_prefix _ _

/-- A path that is judged inside goes down to the root, and stays there. -/
theorem spelledLocation_of_isInside {root : Location} (habsolute : path.absolute = true)
    (h : isInside (ofLocation root) path = true) {xs : List (Component Text)}
    (hxs : xs <+: path.components) :
    spelledLocation [] xs <+: root ∨ root <+: spelledLocation [] xs := by
  obtain ⟨hblank, hcurrent⟩ := filter_names root
  have hdirectories : splitDirectories (ofLocation root) = root.map .name := hblank
  unfold isInside at h
  by_cases hequal : equalFilePath (ofLocation root) path = true
  · left
    have hsame : (path.components.filter (· != .blank)).filter (· != .current) =
        root.map .name := by
      have hcomponents := congrArg Path.components (beq_iff_eq.mp hequal)
      simp only [normalise, hdirectories, hcurrent] at hcomponents
      exact hcomponents.symm
    rw [← spelledLocation_filter]
    refine prefix_of_prefix_names ?_
    rw [← hsame]
    exact (hxs.filter _).filter _
  · rw [if_neg hequal, makeRelative, if_neg hequal] at h
    have hboth : ((ofLocation root).absolute != path.absolute) = false := by
      rw [habsolute]
      rfl
    rw [hboth, if_neg Bool.false_ne_true, hdirectories] at h
    cases hrest : (root.map Component.name).isPrefixOf? (splitDirectories path) with
    | none =>
      rw [hrest] at h
      simp only [habsolute, Bool.not_true, Bool.false_and, Bool.false_eq_true] at h
    | some rest =>
      rw [hrest] at h
      have hsplit : root.map Component.name ++ rest = splitDirectories path :=
        List.append_eq_of_isPrefixOf?_eq_some hrest
      have hstays : staysWithinRoot 0 (rest.filter (· != .blank)) = true :=
        (Bool.and_eq_true_iff.mp h).2
      have hkeep : rest.filter (· != .blank) = rest := by
        have htwice : (splitDirectories path).filter (· != .blank) = splitDirectories path := by
          rw [splitDirectories, List.filter_filter]
          simp only [Bool.and_self]
        rw [← hsplit, filter_append, hblank] at htwice
        exact append_cancel_left htwice
      rw [hkeep] at hstays
      have hheader : xs.filter (· != .blank) <+: root.map Component.name ++ rest := by
        rw [hsplit]
        exact hxs.filter _
      rw [← spelledLocation_filter_blank]
      rcases prefix_or_prefix_of_prefix hheader (prefix_append _ rest) with hup | hdown
      · exact Or.inl (prefix_of_prefix_names hup)
      · right
        obtain ⟨ys, hys⟩ := hdown
        rw [← hys, prefix_append_right_inj] at hheader
        rw [← hys, spelledLocation_append, spelledLocation_names, nil_append]
        exact prefix_spelledLocation hstays hheader (prefix_refl root) rfl

/-- **A path without links names nothing outside a root that it is judged in.** -/
theorem prefix_of_mem_places {root : Location} (habsolute : path.absolute = true)
    (hroot : (tree.node root).isSome = true) (hinside : isInside (ofLocation root) path = true)
    (hlink : meetsLink tree [] path.components = false) {l : Location}
    (h : l ∈ places tree maximumLinks path.components) : root <+: l := by
  obtain ⟨⟨xs, hxs, rfl⟩, hdirectory⟩ := spelled_of_mem_places hlink h
  rcases spelledLocation_of_isInside habsolute hinside hxs with hup | hdown
  · obtain ⟨rest, hrest⟩ := hup
    by_cases hne : rest = []
    · rw [hne, List.append_nil] at hrest
      rw [hrest]
    · rw [← hrest] at hroot
      rw [Tree.isDirectory_of_prefix hroot hne] at hdirectory
      cases hdirectory
  · exact hdown

end Judged

/-! ### Resolved paths -/

section Resolved

variable {host : Host} {tree : FileTree}

theorem absolute_combine {directory path : OsPath} (h : path.absolute = false) :
    (combine directory path).absolute = directory.absolute := by
  rw [combine, if_neg (by rw [h]; exact Bool.false_ne_true)]

theorem absolute_attemptRealpath {attempts : ℕ} {fallback : Option OsPath} {path : OsPath}
    (h : ∀ resolved, fallback = some resolved → resolved.absolute = true)
    (hsome : attempts = 0 → fallback.isSome = true) :
    (attemptRealpath tree attempts fallback path).absolute = true := by
  induction attempts generalizing fallback path with
  | zero =>
    obtain ⟨first, hfirst⟩ := isSome_iff_exists.mp (hsome rfl)
    rw [attemptRealpath, hfirst]
    exact h first hfirst
  | succ attempts ih =>
    rw [attemptRealpath]
    rcases realpathPrefix tree (splitDirectories path).reverse [] with ⟨location, suffix⟩
    have hresolved : (combine (ofLocation location) (joinPath suffix)).absolute = true := rfl
    dsimp only
    split
    · split
      · refine ih (fun resolved heq => ?_) fun _ => rfl
        cases fallback with
        | none =>
          cases heq
          exact hresolved
        | some first =>
          cases heq
          exact h first rfl
      · exact hresolved
    · exact hresolved

theorem absolute_canonicalizePath (path : OsPath) :
    (canonicalizePath host tree path).absolute = true :=
  absolute_attemptRealpath (by simp) (by simp)

theorem absolute_resolveMissingFrom {components : List (Component Text)} {path : OsPath}
    (h : resolveMissingFrom host tree components = .ok path) : path.absolute = true := by
  induction components generalizing path with
  | nil =>
    cases h
    rfl
  | cons component before ih =>
    rw [resolveMissingFrom] at h
    have hmissing : (if doesPathExist tree ⟨true, (component :: before).reverse⟩ then
          .ok (canonicalizePath host tree ⟨true, (component :: before).reverse⟩)
        else if equalFilePath ⟨true, before.reverse⟩ ⟨true, (component :: before).reverse⟩ then
          .ok ⟨true, (component :: before).reverse⟩
        else (resolveMissingFrom host tree before).map
          (combine · (takeFileName ⟨true, (component :: before).reverse⟩)) :
        Except Text OsPath) = .ok path → path.absolute = true := by
      intro hok
      split_ifs at hok
      · cases hok
        exact absolute_canonicalizePath _
      · cases hok
        rfl
      · cases hbefore : resolveMissingFrom host tree before with
        | error err =>
          rw [hbefore] at hok
          cases hok
        | ok parent =>
          rw [hbefore] at hok
          cases hok
          exact (absolute_combine rfl).trans (ih hbefore)
    split at h
    · cases h
      exact absolute_canonicalizePath _
    · exact hmissing h
    · exact hmissing h
    · cases h

theorem absolute_resolvePath {path resolved : OsPath}
    (h : resolvePath host tree path = .ok resolved) : resolved.absolute = true := by
  rw [resolvePath] at h
  split_ifs at h
  · cases h
    exact absolute_canonicalizePath _
  · exact absolute_resolveMissingFrom h

theorem absolute_resolveWithRootsAttempt {env : ToolEnv} {requested path : OsPath}
    {extraRoots : List OsPath}
    (h : resolveWithRootsAttempt host tree env requested extraRoots = .ok path) :
    path.absolute = true := by
  have hordinary : ∀ {roots target}, resolveOrdinary host tree roots target = .ok path →
      path.absolute = true := by
    intro roots target hok
    rw [resolveOrdinary] at hok
    cases hresolved : resolvePath host tree target with
    | error err =>
      rw [hresolved] at hok
      cases hok
    | ok resolved =>
      rw [hresolved] at hok
      dsimp only at hok
      split_ifs at hok
      cases hok
      exact absolute_resolvePath hresolved
  have hprivate : ∀ {tempRoot relative},
      resolvePrivateTemp host tree requested tempRoot relative = .ok path →
      path.absolute = true := by
    intro tempRoot relative hok
    rw [resolvePrivateTemp] at hok
    cases hresolved : resolvePath host tree (combine tempRoot relative) with
    | error err =>
      rw [hresolved] at hok
      cases hok
    | ok resolved =>
      rw [hresolved] at hok
      dsimp only at hok
      split_ifs at hok
      cases hok
      exact absolute_resolvePath hresolved
  rw [resolveWithRootsAttempt] at h
  split at h
  · split at h
    · exact hordinary h
    · exact hprivate h
  · exact hordinary h

theorem resolveWithRootsAttempt_of_not_asked {env : ToolEnv} {requested path : OsPath}
    (h : (resolveUnderCwd host tree env requested).result = .ok path)
    (hasked : (resolveUnderCwd host tree env requested).asked = none) :
    resolveWithRootsAttempt host tree env requested [] = .ok path := by
  rw [resolveUnderCwd, resolveWithRoots] at h hasked
  cases hattempt : resolveWithRootsAttempt host tree env requested [] with
  | ok resolved =>
    rw [hattempt] at h
    cases h
    rfl
  | error failure =>
    rw [hattempt] at h hasked
    cases failure with
    | resolverFailure err => cases h
    | outsideAllowedRoots resolved =>
      dsimp only at h hasked
      cases hrequest : env.toolRootAccessRequest with
      | none =>
        rw [hrequest] at h
        cases h
      | some requestAccess =>
        rw [hrequest] at h hasked
        dsimp only at h hasked
        cases hroot : nearestExistingDirectory host tree resolved with
        | none =>
          rw [hroot] at h
          cases h
        | some requestedRoot =>
          rw [hroot] at h hasked
          dsimp only at h hasked
          -- whoever answers has been asked
          cases hanswer : requestAccess requestedRoot with
          | error err =>
            rw [hanswer] at h
            cases h
          | ok granted =>
            rw [hanswer] at h hasked
            cases granted with
            | false => cases h
            | true =>
              dsimp only at hasked
              split at hasked <;> cases hasked

end Resolved

def exampleHost : Host where
  currentDirectory := ofLocation []
  showError _ := []

/-- The workspace `w` has a link to the directory `o`. -/
def exampleTree : FileTree :=
  ((Tree.empty.put [['w']] .directory).put [['o']] .directory).put [['w'], ['l']]
    (.link (ofLocation [['o']]))

def exampleEnv : ToolEnv where
  toolCwd := ofLocation [['w']]
  toolAllowedRoots := []
  toolRootAccessRequest := none
  toolSkillRoots := []
  toolSessionTmp := none

end FileSystem
end HaskellAgent
