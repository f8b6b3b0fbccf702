import Mathlib.Data.List.Basic

/-!
# Bus events

The payloads of the events that the state reducer records (`core-types/src/events.ts`). A payload
keeps the fields that reach a state packet; the envelope fields `schemaVersion`, `sequence` and
`streamId` and the payload fields `durationMs`, `filesScanned` and `details` are read by no
function of this development.
-/

namespace KirkForge

inductive VerifierStatus
  | pass | fail | error | skipped
  deriving DecidableEq, Repr

/-- A path that was not written, with the reason. -/
structure BlockedPath where
  path : String
  reason : String
  deriving DecidableEq, Repr

/-- A parse warning as it travels in an event. The declared type is a line number with a message,
but the artifact mode sends the bare message. -/
inductive ParseWarning
  | located (line : Nat) (warning : String)
  | text (message : String)
  deriving DecidableEq, Repr

structure EmittedFile where
  path : String
  sha256 : String
  bytes : Nat
  beforeHash : Option String
  existed : Bool
  deriving DecidableEq, Repr

structure VerifyLintValue where
  status : Option VerifierStatus
  error : Option String := none
  errors : Nat
  warnings : Nat
  suppressed : Option Nat := none
  deriving DecidableEq, Repr

structure VerifyTypesValue where
  status : Option VerifierStatus
  error : Option String := none
  errors : Nat
  deriving DecidableEq, Repr

structure VerifySecurityValue where
  status : Option VerifierStatus
  error : Option String := none
  findings : Nat
  critical : Nat
  high : Nat
  deriving DecidableEq, Repr

structure VerifyImportsValue where
  status : Option VerifierStatus
  error : Option String := none
  findings : Nat
  warnings : Nat
  info : Nat
  deriving DecidableEq, Repr

structure StateChangesValue where
  filesChanged : Nat
  paths : List String
  insertions : Nat
  deletions : Nat
  deriving DecidableEq, Repr

structure StateGraphValue where
  status : Option VerifierStatus
  error : Option String := none
  edgeCount : Nat
  newEdges : Nat
  brokenEdges : Nat
  cycles : Nat
  deriving DecidableEq, Repr

structure ArtifactBlockedValue where
  blockedPaths : List BlockedPath
  parseWarnings : Option (List ParseWarning) := none
  deriving DecidableEq, Repr

structure ArtifactUnterminatedValue where
  warnings : List String
  deriving DecidableEq, Repr

structure ArtifactTruncatedValue where
  finishReason : String
  warnings : List String
  deriving DecidableEq, Repr

structure ArtifactEmittedValue where
  filesWritten : Nat
  totalBytes : Nat
  files : List EmittedFile
  language : String
  deriving DecidableEq, Repr

/-- The kinds of event the reducer subscribes to. -/
inductive SignalKind
  | verifyLint | verifyTypes | verifySecurity | verifyImports
  | stateChanges | stateGraph
  | artifactBlocked | artifactUnterminated | artifactTruncated | artifactEmitted
  deriving DecidableEq, Repr

def SignalKind.name : SignalKind → String
  | verifyLint => "verify.lint"
  | verifyTypes => "verify.types"
  | verifySecurity => "verify.security"
  | verifyImports => "verify.imports"
  | stateChanges => "state.changes"
  | stateGraph => "state.graph"
  | artifactBlocked => "artifact.blocked"
  | artifactUnterminated => "artifact.unterminated"
  | artifactTruncated => "artifact.truncated"
  | artifactEmitted => "artifact.emitted"

/-- The payload of a recorded event, tagged by its kind. -/
inductive SignalValue
  | verifyLint (value : VerifyLintValue)
  | verifyTypes (value : VerifyTypesValue)
  | verifySecurity (value : VerifySecurityValue)
  | verifyImports (value : VerifyImportsValue)
  | stateChanges (value : StateChangesValue)
  | stateGraph (value : StateGraphValue)
  | artifactBlocked (value : ArtifactBlockedValue)
  | artifactUnterminated (value : ArtifactUnterminatedValue)
  | artifactTruncated (value : ArtifactTruncatedValue)
  | artifactEmitted (value : ArtifactEmittedValue)
  deriving DecidableEq, Repr

def SignalValue.kind : SignalValue → SignalKind
  | verifyLint _ => .verifyLint
  | verifyTypes _ => .verifyTypes
  | verifySecurity _ => .verifySecurity
  | verifyImports _ => .verifyImports
  | stateChanges _ => .stateChanges
  | stateGraph _ => .stateGraph
  | artifactBlocked _ => .artifactBlocked
  | artifactUnterminated _ => .artifactUnterminated
  | artifactTruncated _ => .artifactTruncated
  | artifactEmitted _ => .artifactEmitted

/-- The `status` field of a payload, for the kinds that have one. -/
def SignalValue.status : SignalValue → Option VerifierStatus
  | verifyLint v => v.status
  | verifyTypes v => v.status
  | verifySecurity v => v.status
  | verifyImports v => v.status
  | stateGraph v => v.status
  | _ => none

/-- An event recorded by the reducer. -/
structure ReducerSignal where
  taskId : String
  value : SignalValue
  source : Option String := none
  timestamp : String
  deriving DecidableEq, Repr

def ReducerSignal.kind (s : ReducerSignal) : SignalKind := s.value.kind

end KirkForge
