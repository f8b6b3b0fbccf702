import KirkForge.CoreTypes.Events

/-!
# State packets

The packet that the reducer produces and the correction loop decides on
(`correction-core/src/types.ts`, `task-validator.ts`, `task-language.ts`). The slots of
`verification` and `graph` carry the status and error text that `StateReducer.reduce` puts there.
-/

namespace KirkForge

inductive TaskLanguage
  | typescript | javascript | python | shell | cpp | c | rust | go | sql | text
  deriving DecidableEq, Repr

def TaskLanguage.name : TaskLanguage → String
  | typescript => "typescript"
  | javascript => "javascript"
  | python => "python"
  | shell => "shell"
  | cpp => "cpp"
  | c => "c"
  | rust => "rust"
  | go => "go"
  | sql => "sql"
  | text => "text"

inductive VerifierSlot
  | lint | types | security | graph | imports
  deriving DecidableEq, Repr

def VerifierSlot.name : VerifierSlot → String
  | lint => "lint"
  | types => "types"
  | security => "security"
  | graph => "graph"
  | imports => "imports"

structure VerifierPolicy where
  required : List VerifierSlot
  advisory : List VerifierSlot
  deriving DecidableEq, Repr

structure VerifierPolicyResult where
  required : List VerifierSlot
  advisory : List VerifierSlot
  missingRequired : List VerifierSlot
  skippedRequired : List VerifierSlot
  deriving DecidableEq, Repr

inductive EnforcementStatus
  | pass | fail
  deriving DecidableEq, Repr

structure ArtifactEnforcement where
  blocked : Nat
  blockedPaths : List BlockedPath
  reason : Option String := none
  status : EnforcementStatus
  parseWarnings : Option (List ParseWarning) := none
  unterminated : Option Bool := none
  unterminatedWarnings : Option (List String) := none
  truncated : Option Bool := none
  truncatedFinishReason : Option String := none
  truncatedWarnings : Option (List String) := none
  deriving DecidableEq, Repr

inductive Overall
  | pass | warn | fail
  deriving DecidableEq, Repr

def Overall.name : Overall → String
  | pass => "pass"
  | warn => "warn"
  | fail => "fail"

structure LintSlot where
  errors : Nat
  warnings : Nat
  suppressed : Nat
  status : VerifierStatus
  error : Option String
  deriving DecidableEq, Repr

structure TypesSlot where
  errors : Nat
  status : VerifierStatus
  error : Option String
  deriving DecidableEq, Repr

structure SecuritySlot where
  findings : Nat
  critical : Nat
  high : Nat
  status : VerifierStatus
  error : Option String
  deriving DecidableEq, Repr

structure ImportsSlot where
  findings : Nat
  warnings : Nat
  info : Nat
  status : VerifierStatus
  error : Option String
  deriving DecidableEq, Repr

structure GraphSlot where
  edgeCount : Nat
  newEdges : Nat
  brokenEdges : Nat
  cycles : Nat
  status : VerifierStatus
  error : Option String
  deriving DecidableEq, Repr

structure Verification where
  lint : LintSlot
  types : TypesSlot
  security : SecuritySlot
  imports : ImportsSlot
  overall : Overall
  deriving DecidableEq, Repr

structure Emissions where
  filesWritten : Nat
  totalBytes : Nat
  files : List EmittedFile
  deriving DecidableEq, Repr

structure ContributingSignal where
  kind : String
  ts : String
  source : Option String
  deriving DecidableEq, Repr

structure ReducedStatePacket where
  taskId : String
  turn : Nat
  ts : String
  changes : StateChangesValue
  graph : GraphSlot
  verification : Verification
  artifactEnforcement : Option ArtifactEnforcement
  emissions : Option Emissions
  verifierPolicy : Option VerifierPolicyResult
  contributingSignals : List ContributingSignal
  policyHash : Option String
  deriving DecidableEq, Repr

/-! ### Task validation -/

inductive TaskValidationStatus
  | pass | fail | error | skipped
  deriving DecidableEq, Repr

def TaskValidationStatus.name : TaskValidationStatus → String
  | pass => "pass"
  | fail => "fail"
  | error => "error"
  | skipped => "skipped"

structure TaskValidationResult where
  status : TaskValidationStatus
  validator : String
  reason : Option String := none
  durationMs : Option Nat := none
  deriving DecidableEq, Repr

/-- The declared outcomes, with the `"error"` that the crash path of the correction loop casts to
this type. -/
inductive TaskOutcome
  | pass | fail | escalate | unknown | error
  deriving DecidableEq, Repr

def taskOutcomeFromValidation (result : TaskValidationResult) : TaskOutcome :=
  match result.status with
  | .pass => .pass
  | .fail => .fail
  | .error => .unknown
  | .skipped => .unknown

def makeSkippedValidation (validator : String := "none")
    (reason : String := "no validator configured") : TaskValidationResult :=
  { status := .skipped, validator, reason := some reason }

inductive CorrectionAction
  | accept | correct | escalate
  deriving DecidableEq, Repr

structure CorrectionDecision where
  action : CorrectionAction
  rationale : String
  correctionPrompt : Option String := none
  packet : ReducedStatePacket
  correctionCount : Nat
  workerTokens : Nat
  sessionTokens : Nat
  deriving DecidableEq, Repr

end KirkForge
