import HaskellAgent.Lib.FileTree
import HaskellAgent.Loop.Input
import HaskellAgent.Sessions.Framing

/-!
# Files of the workspace

A path that a tool is given is resolved against the working directory and judged: what exists is
made canonical, and what does not stays as it is spelled behind its longest part that does.  The
paths that are resolved are absolute; their separators are counted once, and a trailing one has
nothing behind it.

The trees and the calls of the system stand in for those of a POSIX host, which follows at most forty
links on the way of a path.  `canonicalizePath` and `createDirectoryIfMissing` are those of the
standard library.
-/

namespace HaskellAgent
namespace FileSystem

open Posix Framing

abbrev OsPath := Path Text

abbrev Location := List Text

abbrev FileTree := Tree Text Bytes

/-! ### Paths -/

/-- The components; the root of an absolute path is not among them. -/
def splitDirectories (path : OsPath) : List (Component Text) :=
  path.components.filter (· != .blank)

def dropTrailingPathSeparator (path : OsPath) : OsPath :=
  { path with components := splitDirectories path }

def normalise (path : OsPath) : OsPath :=
  { path with components := (splitDirectories path).filter (· != .current) }

def equalFilePath (a b : OsPath) : Bool := normalise a == normalise b

def combine (directory path : OsPath) : OsPath :=
  if path.absolute then path
  else { directory with components := splitDirectories directory ++ path.components }

def takeDirectory (path : OsPath) : OsPath := { path with components := path.components.dropLast }

def takeFileName (path : OsPath) : OsPath := ⟨false, path.components.getLast?.toList⟩

def joinPath (components : List (Component Text)) : OsPath := ⟨false, components⟩

/-- `path` without the components of `root`, if it begins with them. -/
def makeRelative (root path : OsPath) : OsPath :=
  if equalFilePath root path then ⟨false, [.current]⟩
  else if root.absolute != path.absolute then path
  else
    match (splitDirectories root).isPrefixOf? (splitDirectories path) with
    | some rest => ⟨false, rest⟩
    | none => path

def ofLocation (location : Location) : OsPath := ⟨true, location.map .name⟩

def showComponent : Component Text → Text
  | .blank => []
  | .current => ['.']
  | .parent => ['.', '.']
  | .name n => n

def toText (path : OsPath) : Text :=
  (if path.absolute then ['/'] else []) ++
    List.intercalate ['/'] (path.components.map showComponent)

/-! ### The host -/

structure Host where
  /-- The working directory of the process. -/
  currentDirectory : OsPath
  showError : Errno → Text

def maximumLinks : ℕ := 40

def doesPathExist (tree : FileTree) (path : OsPath) : Bool :=
  match walk tree maximumLinks [] path.components with
  | .found _ _ => true
  | _ => false

def doesDirectoryExist (tree : FileTree) (path : OsPath) : Bool :=
  match walk tree maximumLinks [] path.components with
  | .found location _ => tree.isDirectory location
  | _ => false

def pathIsSymbolicLink (tree : FileTree) (path : OsPath) : Except Errno Bool :=
  isSymbolicLink tree maximumLinks path.components

/-- The directory or file that a path leads to, which its location identifies. -/
def pathIdentity (tree : FileTree) (path : OsPath) : Option Location :=
  match walk tree maximumLinks [] path.components with
  | .found location _ => some location
  | _ => none

/-- The longest part of a path that exists, and what is behind it; the components before `suffix`
come last first. -/
def realpathPrefix (tree : FileTree) :
    List (Component Text) → List (Component Text) → Location × List (Component Text)
  | [], suffix => ([], suffix)
  | component :: before, suffix =>
      match walk tree maximumLinks [] (component :: before).reverse with
      | .found location _ => (location, suffix)
      | _ => realpathPrefix tree before (component :: suffix)

/-- `attemptRealpathWith`: a link behind what exists is replaced by its target, some times. -/
def attemptRealpath (tree : FileTree) : ℕ → Option OsPath → OsPath → OsPath
  | 0, fallback, path => fallback.getD path
  | attempts + 1, fallback, path =>
      let (location, suffix) := realpathPrefix tree (splitDirectories path).reverse []
      let resolved := combine (ofLocation location) (joinPath suffix)
      match suffix with
      | .name next :: rest =>
          match tree.node (location ++ [next]) with
          | some (.link target) =>
              attemptRealpath tree attempts (some (fallback.getD resolved))
                (combine (combine (ofLocation location) target) (joinPath rest))
          | _ => resolved
      | _ => resolved

def canonicalizePath (host : Host) (tree : FileTree) (path : OsPath) : OsPath :=
  normalise (attemptRealpath tree 64 none (combine host.currentDirectory path))

/-! ### Where a path is -/

/-- `resolveMissing`; the components come last first. -/
def resolveMissingFrom (host : Host) (tree : FileTree) :
    List (Component Text) → Except Text OsPath
  | [] => .ok ⟨true, []⟩
  | component :: before =>
      let path : OsPath := ⟨true, (component :: before).reverse⟩
      let parent : OsPath := ⟨true, before.reverse⟩
      let missing :=
        if doesPathExist tree path then .ok (canonicalizePath host tree path)
        else if equalFilePath parent path then .ok path
        else (resolveMissingFrom host tree before).map (combine · (takeFileName path))
      match pathIsSymbolicLink tree path with
      | .ok true => .ok (canonicalizePath host tree path)
      | .ok false => missing
      | .error .noEntry => missing
      | .error err => .error ("Cannot inspect path: ".toList ++ host.showError err)

def resolveMissing (host : Host) (tree : FileTree) (path : OsPath) : Except Text OsPath :=
  resolveMissingFrom host tree path.components.reverse

def resolvePath (host : Host) (tree : FileTree) (path : OsPath) : Except Text OsPath :=
  if doesPathExist tree path then .ok (canonicalizePath host tree path)
  else resolveMissing host tree path

/-- The components stay within the directory they start from, `depth` above them. -/
def staysWithinRoot : ℕ → List (Component Text) → Bool
  | _, [] => true
  | depth, .parent :: rest => decide (0 < depth) && staysWithinRoot (depth - 1) rest
  | depth, .name _ :: rest => staysWithinRoot (depth + 1) rest
  | depth, .current :: rest => staysWithinRoot depth rest
  | depth, .blank :: rest => staysWithinRoot depth rest

def isInside (root path : OsPath) : Bool :=
  if equalFilePath root path then true
  else
    let relative := makeRelative root path
    !relative.absolute && staysWithinRoot 0 (splitDirectories relative)

/-! ### The temp directory of the system -/

def tmpComponent : Text := "tmp".toList

def privateComponent : Text := "private".toList

def systemTmpRoot : OsPath := ⟨true, [.name tmpComponent]⟩

def privateSystemTmpRoot : OsPath := ⟨true, [.name privateComponent, .name tmpComponent]⟩

def currentDirectory : OsPath := ⟨false, [.current]⟩

def relativeOrCurrent (rest : List (Component Text)) : OsPath :=
  if rest.isEmpty then currentDirectory else joinPath rest

def directAlias (components : List (Component Text)) : Option (OsPath × OsPath) :=
  match components with
  | .name first :: rest =>
      if first = tmpComponent then some (systemTmpRoot, relativeOrCurrent rest)
      else if first = privateComponent then
        match rest with
        | .name second :: rest =>
            if second = tmpComponent then some (privateSystemTmpRoot, relativeOrCurrent rest)
            else none
        | _ => none
      else none
  | _ => none

def matchingAlias (aliases : List (OsPath × Location)) (identity : Location) : Option OsPath :=
  (aliases.find? fun entry => entry.2 == identity).map (·.1)

/-- The first part of the path that leads to an alias; the part `before` is tried first. -/
def findAlias (tree : FileTree) (aliases : List (OsPath × Location))
    (before : List (Component Text)) : List (Component Text) → Option (OsPath × OsPath)
  | [] =>
      ((pathIdentity tree ⟨true, before⟩).bind (matchingAlias aliases)).map (·, currentDirectory)
  | component :: rest =>
      match (pathIdentity tree ⟨true, before⟩).bind (matchingAlias aliases) with
      | some found => some (found, joinPath (component :: rest))
      | none => findAlias tree aliases (before ++ [component]) rest

def systemTempRelative (tree : FileTree) (path : OsPath) : Option (OsPath × OsPath) :=
  let components := splitDirectories (dropTrailingPathSeparator path)
  match directAlias components with
  | some found => some found
  | none =>
      let aliases := [systemTmpRoot, privateSystemTmpRoot].filterMap fun root =>
        (pathIdentity tree root).map fun identity => (root, identity)
      findAlias tree aliases [] components

def systemTempPathIsAllowed (host : Host) (tree : FileTree) (roots : List OsPath)
    (aliasRoot relative : OsPath) : Bool :=
  roots.any fun root => isInside root (combine (canonicalizePath host tree aliasRoot) relative)

/-! ### Resolving -/

structure ToolEnv where
  toolCwd : OsPath
  toolAllowedRoots : List OsPath
  /-- The answer to a request for a root, or the text of what it throws. -/
  toolRootAccessRequest : Option (OsPath → Except Text Bool)
  toolSkillRoots : List OsPath
  toolSessionTmp : Option OsPath

inductive ResolveFailure
  | outsideAllowedRoots (path : OsPath)
  | resolverFailure (message : Text)

def tempEscapeMessage (requested : OsPath) : Text :=
  "Path escapes the private session temp directory: ".toList ++ toText requested

def outsideRootsMessage (requested : OsPath) : Text :=
  "Path escapes the allowed filesystem roots: ".toList ++ toText requested

def resolveOrdinary (host : Host) (tree : FileTree) (roots : List OsPath) (path : OsPath) :
    Except ResolveFailure OsPath :=
  match resolvePath host tree path with
  | .error err => .error (.resolverFailure err)
  | .ok resolved =>
      if roots.any (isInside · resolved) then .ok resolved
      else .error (.outsideAllowedRoots resolved)

def resolvePrivateTemp (host : Host) (tree : FileTree) (requested tempRoot relative : OsPath) :
    Except ResolveFailure OsPath :=
  match resolvePath host tree (combine tempRoot relative) with
  | .error err => .error (.resolverFailure err)
  | .ok resolved =>
      if isInside tempRoot resolved then .ok resolved
      else .error (.resolverFailure (tempEscapeMessage requested))

/-- The working directory, the roots and the temp directory of the session, made canonical. -/
def canonicalRoots (host : Host) (tree : FileTree) (env : ToolEnv) (extraRoots : List OsPath) :
    List OsPath :=
  (env.toolCwd :: (env.toolAllowedRoots ++ extraRoots) ++ env.toolSessionTmp.toList).map
    (canonicalizePath host tree)

def resolveWithRootsAttempt (host : Host) (tree : FileTree) (env : ToolEnv) (requested : OsPath)
    (extraRoots : List OsPath) : Except ResolveFailure OsPath :=
  let absCwd := canonicalizePath host tree env.toolCwd
  let canonicalSessionTmp := env.toolSessionTmp.map (canonicalizePath host tree)
  let roots := canonicalRoots host tree env extraRoots
  let combined := if requested.absolute then requested else combine absCwd requested
  let tempAlias := if requested.absolute then systemTempRelative tree combined else none
  match canonicalSessionTmp, tempAlias with
  | some tempRoot, some (aliasRoot, relative) =>
      if systemTempPathIsAllowed host tree roots aliasRoot relative then
        resolveOrdinary host tree roots combined
      else resolvePrivateTemp host tree requested tempRoot relative
  | _, _ => resolveOrdinary host tree roots combined

/-- The directories from `path` up, of which the first that exists is made canonical. -/
def nearestExistingDirectory (host : Host) (tree : FileTree) (path : OsPath) : Option OsPath :=
  (path.components.inits.reverse.find? fun components =>
    doesDirectoryExist tree { path with components }).map fun components =>
      canonicalizePath host tree { path with components }

def addToolAllowedRoot (env : ToolEnv) (root : OsPath) : ToolEnv :=
  { env with
    toolAllowedRoots :=
      if env.toolAllowedRoots.any (equalFilePath root) then env.toolAllowedRoots
      else env.toolAllowedRoots ++ [root] }

/-- What came of resolving a path, with the root that was asked for. -/
structure Resolution where
  result : Except Text OsPath
  asked : Option OsPath
  env : ToolEnv

def resolveWithRoots (host : Host) (tree : FileTree) (env : ToolEnv) (requested : OsPath)
    (extraRoots : List OsPath) : Resolution :=
  match resolveWithRootsAttempt host tree env requested extraRoots with
  | .ok resolved => ⟨.ok resolved, none, env⟩
  | .error (.resolverFailure err) => ⟨.error err, none, env⟩
  | .error (.outsideAllowedRoots resolved) =>
      match env.toolRootAccessRequest with
      | none => ⟨.error (outsideRootsMessage requested), none, env⟩
      | some requestAccess =>
          match nearestExistingDirectory host tree resolved with
          | none => ⟨.error (outsideRootsMessage requested), none, env⟩
          | some requestedRoot =>
              match requestAccess requestedRoot with
              | .error err =>
                  ⟨.error ("Filesystem access request failed: ".toList ++ err),
                    some requestedRoot, env⟩
              | .ok false => ⟨.error (outsideRootsMessage requested), some requestedRoot, env⟩
              | .ok true =>
                  let granted := addToolAllowedRoot env requestedRoot
                  match resolveWithRootsAttempt host tree granted requested extraRoots with
                  | .ok value => ⟨.ok value, some requestedRoot, granted⟩
                  | .error _ =>
                      ⟨.error (outsideRootsMessage requested), some requestedRoot, granted⟩

def resolveUnderCwd (host : Host) (tree : FileTree) (env : ToolEnv) (requested : OsPath) :
    Resolution :=
  resolveWithRoots host tree env requested []

/-! ### Writing -/

/-- A directory is made, or `notExist` handles that the one it is in is missing. -/
def createDir (tree : FileTree) (dir : List (Component Text))
    (notExist : FileTree × Except Errno Unit) : FileTree × Except Errno Unit :=
  match mkdir tree maximumLinks dir with
  | .ok made => (made, .ok ())
  | .error .noEntry => notExist
  | .error .exists =>
      -- a link that leads nowhere is taken for a directory
      match walk tree maximumLinks [] dir with
      | .found location _ =>
          (tree, if tree.isDirectory location then .ok () else .error .exists)
      | _ => (tree, .ok ())
  | .error err => (tree, .error err)

/-- The directories on the way of a path, the longest first. -/
def createDirs (tree : FileTree) : List (List (Component Text)) → FileTree × Except Errno Unit
  | [] => (tree, .ok ())
  | [dir] => createDir tree dir (tree, .error .noEntry)
  | dir :: dirs =>
      createDir tree dir <|
        match createDirs tree dirs with
        | (made, .ok ()) => createDir made dir (made, .error .noEntry)
        | (made, .error err) => (made, .error err)

def createDirectoryIfMissing (tree : FileTree) (path : OsPath) : FileTree × Except Errno Unit :=
  createDirs tree (normalise path).components.inits.reverse

inductive WriteFailure
  | raised (err : Errno)
  | failed (message : Text)

def writeTextFile (host : Host) (tree : FileTree) (path : OsPath) (content : Text) :
    FileTree × Except WriteFailure Unit :=
  match createDirectoryIfMissing tree (takeDirectory path) with
  | (made, .error err) => (made, .error (.raised err))
  | (made, .ok ()) =>
      match writeFile made maximumLinks path.components (encodeUtf8 content) with
      | .ok written => (written, .ok ())
      | .error err => (made, .error (.failed ("Failed to write file: ".toList ++ host.showError err)))

end FileSystem
end HaskellAgent
