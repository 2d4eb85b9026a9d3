import HaskellAgent.Loop.Input

/-!
# Scheduling plans

What a tool call declares about the resources it uses, and when two calls must not run at the same
time.  Paths and their operations are a parameter; `equalFilePath` compares normal forms.
-/

namespace HaskellAgent

inductive ToolAccess
  | read
  | write
  deriving DecidableEq

/-- Paths of type `π` and what the library offers on them. -/
structure PathSystem (π : Type) where
  /-- The form in which `equalFilePath` compares paths. -/
  normal : π → π
  isAbsolute : π → Bool
  makeRelative : π → π → π
  splitDirectories : π → List π
  /-- The directory name `..`. -/
  parent : π

inductive ToolResource (π : Type)
  | allPaths
  | path (path : π)
  | pathTree (root : π)
  | named (name : Text)
  deriving DecidableEq

structure ToolResourceClaim (π : Type) where
  claimAccess : ToolAccess
  claimResource : ToolResource π
  deriving DecidableEq

inductive ToolSchedulingPlan (π : Type)
  | unconstrained
  | resourceClaims (claims : List (ToolResourceClaim π))
  | exclusive
  deriving DecidableEq

section

variable {π : Type} [DecidableEq π] (sys : PathSystem π)

def equalFilePath (left right : π) : Bool := sys.normal left == sys.normal right

def pathInside (root path : π) : Bool :=
  if equalFilePath sys root path then true
  else
    let relative := sys.makeRelative root path
    !sys.isAbsolute relative &&
      match sys.splitDirectories relative with
      | first :: _ => first != sys.parent
      | [] => true

def resourcesOverlap : ToolResource π → ToolResource π → Bool
  | .allPaths, .allPaths => true
  | .allPaths, .path _ => true
  | .allPaths, .pathTree _ => true
  | .path _, .allPaths => true
  | .pathTree _, .allPaths => true
  | .named left, .named right => left == right
  | .path left, .path right => equalFilePath sys left right
  | .pathTree left, .path right => pathInside sys left right
  | .path left, .pathTree right => pathInside sys right left
  | .pathTree left, .pathTree right => pathInside sys left right || pathInside sys right left
  | _, _ => false

def claimsConflict (left right : ToolResourceClaim π) : Bool :=
  resourcesOverlap sys left.claimResource right.claimResource &&
    (left.claimAccess == .write || right.claimAccess == .write)

def schedulingPlansConflict : ToolSchedulingPlan π → ToolSchedulingPlan π → Bool
  | .exclusive, _ => true
  | _, .exclusive => true
  | .unconstrained, _ => false
  | _, .unconstrained => false
  | .resourceClaims left, .resourceClaims right =>
      left.any fun leftClaim => right.any fun rightClaim => claimsConflict sys leftClaim rightClaim

/-! ### Symmetry -/

theorem equalFilePath_comm (left right : π) :
    equalFilePath sys left right = equalFilePath sys right left :=
  Bool.beq_comm

theorem resourcesOverlap_comm (left right : ToolResource π) :
    resourcesOverlap sys left right = resourcesOverlap sys right left := by
  cases left <;> cases right <;>
    simp only [resourcesOverlap, equalFilePath_comm, Bool.or_comm, Bool.beq_comm]

theorem claimsConflict_comm (left right : ToolResourceClaim π) :
    claimsConflict sys left right = claimsConflict sys right left := by
  rw [claimsConflict, claimsConflict, resourcesOverlap_comm, Bool.or_comm]

/-- **Conflict does not depend on the order of the plans.** -/
theorem schedulingPlansConflict_comm (left right : ToolSchedulingPlan π) :
    schedulingPlansConflict sys left right = schedulingPlansConflict sys right left := by
  cases left <;> cases right <;> try rfl
  next left right =>
    simp only [schedulingPlansConflict]
    rw [Bool.eq_iff_iff, List.any_eq_true, List.any_eq_true]
    simp only [List.any_eq_true]
    -- both sides range over the pairs of claims
    constructor
    · rintro ⟨a, ha, b, hb, hab⟩
      exact ⟨b, hb, a, ha, by rw [claimsConflict_comm]; exact hab⟩
    · rintro ⟨a, ha, b, hb, hab⟩
      exact ⟨b, hb, a, ha, by rw [claimsConflict_comm]; exact hab⟩

end

end HaskellAgent
