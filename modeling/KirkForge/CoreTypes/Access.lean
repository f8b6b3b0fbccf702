import Mathlib.Init

/-!
# Actors and policy decisions

Who acts (`core-rbac/src/index.ts`) and what a policy says about it (`core-policy/src/index.ts`).
-/

namespace KirkForge

inductive Role
  | admin | operator | developer | viewer
  deriving DecidableEq, Repr

inductive AuthMethod
  | oidc | apiKey | internal
  deriving DecidableEq, Repr

structure Actor where
  id : String
  role : Role
  tenantId : String
  authMethod : AuthMethod
  verifiedAt : String
  deriving DecidableEq, Repr

structure PolicyDecision where
  allowed : Bool
  reason : String
  policyHash : String
  rule : String
  deriving DecidableEq, Repr

/-- The checks of a policy engine that the orchestrator calls. -/
structure PolicyChecks where
  checkModel : String → PolicyDecision
  checkTool : String → PolicyDecision

end KirkForge
