import KirkForge.CorrectionCore.Types

/-!
# Tasks and delegations

The inputs and results of a delegation (`orchestrator/src/types.ts`).
-/

namespace KirkForge

inductive DelegationMode
  | hardPrompt | schemaContract | artifact | taskDecompose
  deriving DecidableEq, Repr

def DelegationMode.name : DelegationMode → String
  | hardPrompt => "hard-prompt"
  | schemaContract => "schema-contract"
  | artifact => "artifact"
  | taskDecompose => "task-decompose"

/-- A task. `taskPass` is `none` for both `null` and `undefined`. -/
structure TaskInput where
  taskId : Option String := none
  description : String
  context : Option String := none
  files : Option (List String) := none
  modeOverride : Option DelegationMode := none
  taskPass : Option Bool := none
  suppressMemory : Option Bool := none
  language : Option String := none
  verifierPolicy : Option VerifierPolicy := none
  deriving DecidableEq, Repr

structure DelegationDecision where
  mode : DelegationMode
  reason : String
  autoRouted : Bool
  deriving DecidableEq, Repr

structure Emission where
  agentId : String
  content : String
  promptTokens : Nat
  completionTokens : Nat
  totalTokens : Nat
  model : String
  format : DelegationMode
  finishReason : Option String := none
  deriving DecidableEq, Repr

/-- The payload of a signal in a delegation result; `other` stands for the kinds that no function
below looks at. -/
inductive DelegationSignalValue
  | artifactBlocked (value : ArtifactBlockedValue)
  | artifactUnterminated (value : ArtifactUnterminatedValue)
  | artifactTruncated (value : ArtifactTruncatedValue)
  | artifactEmitted (value : ArtifactEmittedValue)
  | filesWritten (files : List EmittedFile) (language : String)
  | emission (content : String)
  | other (kind : String)
  deriving DecidableEq, Repr

structure DelegationSignal where
  id : String
  taskId : String
  domain : String
  source : String
  ts : String
  value : DelegationSignalValue
  deriving DecidableEq, Repr

structure DelegationResult where
  decision : DelegationDecision
  emission : Emission
  signals : List DelegationSignal
  packet : Option ReducedStatePacket := none
  providerResolved : Option String := none
  deriving DecidableEq, Repr

/-- The `files` of the signals that list files. -/
def DelegationSignalValue.files : DelegationSignalValue → Option (List EmittedFile)
  | artifactEmitted v => some v.files
  | filesWritten files _ => some files
  | _ => none

def extractWrittenFiles (result : DelegationResult) : List String :=
  match result.signals.findSome? fun sig => sig.value.files with
  | some files => (files.map (·.path)).filter (· ≠ "")
  | none => []

/-- The orchestrator's counters that a delegation updates. -/
structure OrchestratorStats where
  totalDelegations : Nat
  totalTokens : Nat
  deriving DecidableEq, Repr

end KirkForge
