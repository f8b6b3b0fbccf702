import KirkForge.Orchestrator.ReducerLemmas
import KirkForge.Orchestrator.TaskProfile
import KirkForge.Orchestrator.Types
import KirkForge.Theory.Run
import KirkForge.Theory.Text

/-!
# Finishing a delegation

`finalizeDelegation` (`orchestrator-finalize.ts`) emits the artifact signals of a delegation to the
event bus, runs the verifiers and attaches a state packet to the result. `verify`
(`orchestrator/src/index.ts`) runs the verifiers alone. Both leave their events in the reducer, and
only `verify` removes them again.

The bus may drop an event, because it is shut down, because its buffer is full or as a duplicate,
and the code does not look at its answer. The events of the verifiers are those that are delivered;
which of its own events a delegation gets through is `VerifierEnv.handsOver`.
-/

namespace KirkForge

/-- The programs that a verification starts: the check command of the profile and the six
verifiers, whose events are listed in the order in which the bus delivers them. -/
structure VerifierEnv where
  /-- Whether the command exits with status 0. -/
  execFile : String → List String → Bool
  emitted : (taskId : String) → (files : Option (List String)) → Option TaskLanguage →
    (writtenFiles : Option (List String)) → List ReducerSignal
  /-- Whether the bus hands over the event of this kind that the call itself emits. -/
  handsOver : SignalKind → Bool := fun _ => true
  now : String

/-- The events that the bus hands over to the reducer. -/
def VerifierEnv.emit (env : VerifierEnv) (events : List ReducerSignal) : List ReducerSignal :=
  events.filter fun event => env.handsOver event.kind

/-- The event of a failed check command. -/
def checkCommandEvent (env : VerifierEnv) (taskId : String) : ReducerSignal where
  taskId
  value := .verifyTypes { status := some .fail, errors := 1 }
  timestamp := env.now

def runCheckCommand (env : VerifierEnv) (checkCommand : String) (files : List String)
    (taskId : String) (structured : Option StructuredCheckCommand) : List ReducerSignal :=
  let run (command : String) (args : List String) : List ReducerSignal :=
    if env.execFile command args then [] else env.emit [checkCommandEvent env taskId]
  match structured with
  | some s =>
    if s.command ≠ "" then
      run s.command (if s.appendFiles ≠ some false then s.args ++ files else s.args)
    else shell run
  | none => shell run
where
  /-- The command as one string, split at white space. -/
  shell (run : String → List String → List ReducerSignal) : List ReducerSignal :=
    match Text.splitSpaces checkCommand with
    | [] => []
    | cmd :: args => if cmd = "" ∨ files = [] then [] else run cmd (args ++ files)

/-- The events of `runVerifiers` that reach the reducer. -/
def runVerifiers (env : VerifierEnv) (taskId : String) (files : Option (List String))
    (language : Option TaskLanguage) (writtenFiles : Option (List String)) :
    List ReducerSignal :=
  let check :=
    match language.map profileForLanguage, writtenFiles with
    | some profile, some (f :: fs) =>
      if profile.checkCommand ≠ "" then
        runCheckCommand env profile.checkCommand (f :: fs) taskId profile.structuredCheck
      else []
    | _, _ => []
  check ++ env.emitted taskId files language writtenFiles

/-- The event for an artifact signal of a delegation; the other signals have none. -/
def DelegationSignal.toEvent? (sig : DelegationSignal) : Option ReducerSignal :=
  let event (value : SignalValue) : Option ReducerSignal :=
    some { taskId := sig.taskId, value, timestamp := sig.ts }
  match sig.value with
  | .artifactBlocked v => event (.artifactBlocked v)
  | .artifactUnterminated v => event (.artifactUnterminated v)
  | .artifactTruncated v => event (.artifactTruncated v)
  | .artifactEmitted v => event (.artifactEmitted v)
  | _ => none

/-- The arguments of `finalizeDelegation` after the result itself. -/
structure FinalizeArgs where
  taskId : String
  mode : DelegationMode
  profile : TaskProfile
  env : VerifierEnv
  providerKey : String
  policyHash : Option String := none

/-- The packet of an empty emission is failed. -/
def emptyEmissionOverride (mode : DelegationMode) (packet : ReducedStatePacket) :
    ReducedStatePacket :=
  let failed (reason : Option String) : ReducedStatePacket :=
    { packet with
      verification := { packet.verification with overall := .fail }
      artifactEnforcement := some { blocked := 0, blockedPaths := [], status := .fail, reason } }
  if mode = .artifact ∧ packet.changes.filesChanged = 0 ∧ packet.artifactEnforcement = none then
    failed none
  else if mode = .schemaContract ∧ packet.changes.filesChanged = 0 ∧ packet.emissions = none then
    failed (some "schema-contract produced zero emissions")
  else packet

/-- The part of the orchestrator that a delegation changes. -/
structure DelegationState where
  reducer : StateReducer
  stats : OrchestratorStats

def DelegationState.empty : DelegationState := ⟨.empty, ⟨0, 0⟩⟩

/-- The events of a finished delegation that reach the reducer. -/
def FinalizeArgs.events (args : FinalizeArgs) (value : DelegationResult) : List ReducerSignal :=
  let writtenFiles := extractWrittenFiles value
  args.env.emit (value.signals.filterMap DelegationSignal.toEvent?) ++
    runVerifiers args.env args.taskId (some writtenFiles) (some args.profile.language)
      (some writtenFiles)

/-- `finalizeDelegation` on the value of a successful result. -/
def finalizeValue (s : DelegationState) (value : DelegationResult) (args : FinalizeArgs) :
    DelegationState × DelegationResult :=
  let reducer := s.reducer.recordAll (args.events value)
  let packet := reducer.reduce args.taskId 0 (some args.profile.verifierPolicy) args.policyHash
    args.env.now
  let stats := {
    totalDelegations := s.stats.totalDelegations + 1
    totalTokens := s.stats.totalTokens + value.emission.totalTokens }
  ({ reducer, stats },
    { value with
      providerResolved := some args.providerKey
      packet := some (emptyEmissionOverride args.mode packet) })

def finalizeDelegation (s : DelegationState) (result : Except String DelegationResult)
    (args : FinalizeArgs) : DelegationState × Except String DelegationResult :=
  match result with
  | .error e => (s, .error e)
  | .ok value =>
    let (s, value) := finalizeValue s value args
    (s, .ok value)

/-- `Orchestrator.verify` with the task id and description resolved. -/
def verify (s : DelegationState) (taskId description : String) (files : Option (List String))
    (env : VerifierEnv) (policyHash : Option String) : DelegationState × ReducedStatePacket :=
  let profile := detectTaskProfile description
  let reducer := s.reducer.recordAll (runVerifiers env taskId files (some profile.language) none)
  ({ s with reducer := reducer.resetTask taskId },
    reducer.reduce taskId 0 (some profile.verifierPolicy) policyHash env.now)

end KirkForge
