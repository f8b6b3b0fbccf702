import KirkForge.CorePolicy.Enforcement
import KirkForge.MemoryPalace.RoutingEngine
import KirkForge.Orchestrator.DecompositionRoundTrip
import KirkForge.Orchestrator.ExecuteDecomposition
import KirkForge.Orchestrator.Finalize
import KirkForge.Orchestrator.HardPrompt
import KirkForge.PromptCore.CompilePrompt
import KirkForge.Theory.Run

/-!
# Delegating a task

`Orchestrator.delegate` (`orchestrator/src/index.ts`) from one `await` to the next, with
`resolveProvider`, `executeHardPrompt`, `executeSchemaContract`, `decomposeTask` and
`finalizeDelegation`. Any number of calls are under way at once; the policy, the working directory
and whether the orchestrator is shut down can change between any two steps. What the memory, the
models, the bus and the verifiers answer are inputs.
-/

namespace KirkForge

open RoutingEngine (Recommendation)

/-! ### The model of a delegation -/

structure ModelProviderConfig where
  provider : String
  defaultModel : String
  deriving DecidableEq

structure ModelConfig where
  providers : OrderedMap String ModelProviderConfig
  defaultProvider : String

/-- What does not change while an orchestrator lives, and what the writers rest on. -/
structure DelegateEnv where
  modelConfig : ModelConfig
  providerKey : String
  decomposeProvider : String
  artifact : ArtifactEnv
  sha256 : ByteArray → String
  /-- The message with which `JSON.parse` refuses a text. -/
  syntaxMessage : String → String
  /-- The message of the exception for an answer with a field that cannot become a text. -/
  conversionMessage : String → String

variable (env : DelegateEnv)

def applyMemoryModelBias (config : ModelProviderConfig) (recommendation : Option Recommendation) :
    ModelProviderConfig :=
  match recommendation with
  | none => config
  | some r =>
    match r.routingBias.prefer with
    | [] => config
    | preferred :: _ =>
      let qualified := decide (':' ∈ preferred.toList)
      let isProviderModel := !qualified || Text.startsWith preferred (config.provider ++ ":")
      let isKnownModel := qualified || preferred = config.defaultModel ||
        env.modelConfig.providers.entries.any (·.2.defaultModel = preferred)
      if preferred = "" ∨ r.routingBias.confidence < 65 / 100 ∨ preferred = config.defaultModel then
        config
      else if isProviderModel && isKnownModel then { config with defaultModel := preferred }
      else config

/-- `none` where it throws. -/
def resolveProvider (recommendation : Option Recommendation) : Option ModelProviderConfig :=
  let providers := env.modelConfig.providers
  (providers.get? env.providerKey <|> providers.get? env.modelConfig.defaultProvider).map
    (applyMemoryModelBias env · recommendation)

/-! ### The profile and the mode -/

def TaskProfile.emission (profile : TaskProfile) : EmissionSchema :=
  { profile with defaultFile := profile.language.defaultFile }

def TaskLanguage.ofName (name : String) : Option TaskLanguage :=
  [typescript, javascript, python, shell, cpp, c, rust, go, sql, text].find? (·.name = name)

/-- The profile of a task. A language that is given need not have one. -/
def TaskInput.profile (task : TaskInput) : Option EmissionSchema :=
  match truthyText task.language with
  | none => some (detectTaskProfile task.description).emission
  | some language => (TaskLanguage.ofName language).map fun l => (profileForLanguage l).emission

/-- The decision, unless the task says the mode. -/
def TaskInput.decision (task : TaskInput) (classified : DelegationDecision) : DelegationDecision :=
  match task.modeOverride with
  | some mode => { mode, reason := "user override", autoRouted := false }
  | none => classified

def DelegationMode.ofName (name : String) : Option DelegationMode :=
  [hardPrompt, schemaContract, artifact, taskDecompose].find? (·.name = name)

/-- The mode that is run. One that the memory names need not be a mode. -/
def TaskInput.mode (task : TaskInput) (decision : DelegationDecision)
    (recommendation : Option Recommendation) : Option DelegationMode :=
  match recommendation with
  | none => some decision.mode
  | some r =>
    if task.modeOverride = none ∧ 75 / 100 ≤ r.confidence ∧ 3 ≤ r.evidence then
      DelegationMode.ofName r.mode
    else some decision.mode

/-- `profile` is an object: a language without a profile has one if the task names the verifiers. -/
def TaskInput.hasProfile (task : TaskInput) : Bool :=
  task.profile.isSome || task.verifierPolicy.isSome

def TaskInput.requiredVerifiers (task : TaskInput) : Option VerifierPolicy :=
  task.verifierPolicy <|> task.profile.map (·.verifierPolicy)

def TaskInput.targetFile (task : TaskInput) : Option String := task.files.bind List.head?

/-- The policy lets the configured model and the language of the task pass. -/
def letIn (policy : Option PolicyHolder) (task : TaskInput) : Settled ExecutionError Unit :=
  match policy with
  | none => .ok ()
  | some engine =>
    match resolveProvider env none with
    | none => .threw "No provider found"
    | some provider =>
      let denied (decision : PolicyDecision) : Settled ExecutionError Unit :=
        .failed (.policyDenied decision.reason decision.rule decision.policyHash none)
      let modelDecision := engine.checkModel provider.defaultModel none
      let toolDecision := engine.checkTool (detectTaskProfile task.description).language.name
      if modelDecision.allowed = false then denied modelDecision
      else if toolDecision.allowed = false then denied toolDecision
      else .ok ()

/-! ### What a mode makes of an answer -/

/-- What `agent.execute` resolves to, after the model was asked again if it was. -/
structure AgentEmission extends Emission where
  schemaContract : Option Json := none

def Emission.wasTruncated (emission : Emission) : Bool :=
  emission.finishReason = some "length" || emission.finishReason = some "max_tokens"

/-- The files and the inputs of a writer. -/
structure WriterIo where
  io : Nat → WriteIo
  readBack : Nat → Bool
  now : String

section Modes

variable (cwd : AbsPath) (profile : Option EmissionSchema) (taskId : String) (w : WriterIo)

def truncatedSignal (emission : Emission) (now warning : String) : DelegationSignal where
  id := "sig-truncated-" ++ taskId
  taskId
  domain := "code"
  source := emission.agentId
  ts := now
  value := .artifactTruncated {
    finishReason := emission.finishReason.getD "undefined", warnings := [warning] }

def executeHardPrompt (targetFile : Option String) (result : Except String AgentEmission)
    (disk : ArtifactDisk) : ArtifactDisk × Except String DelegationResult :=
  match result with
  | .error message => (disk, .error message)
  | .ok emission =>
    let (disk, r) :=
      if emission.wasTruncated then (disk, ⟨[], [], [], [], [], []⟩)
      else persistCodeBlocks env.sha256 cwd profile w.io w.readBack emission.content targetFile
        targetFile.isSome disk
    let files : List EmittedFile := r.written.mapIdx fun i path => {
      path
      sha256 := r.hashes.getD i ""
      bytes := r.fileBytes.getD i 0
      beforeHash := r.beforeHashes.getD i none
      existed := r.existed.getD i false }
    let language := (profile.map (·.language.name)).getD "unknown"
    let signal (id domain : String) (value : DelegationSignalValue) : DelegationSignal :=
      { id := id ++ taskId, taskId, domain, source := emission.agentId, ts := w.now, value }
    (disk, .ok {
      decision := {
        mode := .hardPrompt
        reason := "hard-prompt delegation: " ++ toString r.written.length ++ " files written" ++
          if r.blocked.length > 0 then ", " ++ toString r.blocked.length ++ " blocked" else ""
        autoRouted := true }
      emission := emission.toEmission
      signals := [
        signal "sig-" "task" (.emission (Text.sliceTo emission.content 200)),
        signal "sig-files-" "code" (.filesWritten files language),
        signal "sig-emitted-" "code" (.artifactEmitted {
          filesWritten := r.written.length, totalBytes := r.fileBytes.sum, files, language })] ++
        (if r.blocked.length > 0 then
          [signal "sig-blocked-" "code" (.artifactBlocked { blockedPaths := r.blocked })]
        else []) ++
        if emission.wasTruncated then
          [truncatedSignal taskId emission.toEmission w.now ("model output was truncated " ++
            "(finish_reason: " ++ emission.finishReason.getD "undefined" ++
            ") — file content may be incomplete")]
        else [] })

def executeSchemaContract (now : String) (result : Except String AgentEmission) :
    Except String DelegationResult :=
  match result with
  | .error message => .error message
  | .ok emission =>
    if emission.schemaContract = none then
      .error "Schema-Contract delegation failed: no valid schema extraction after retry"
    else
      let signal (id domain : String) (value : DelegationSignalValue) : DelegationSignal :=
        { id := id ++ taskId, taskId, domain, source := emission.agentId, ts := now, value }
      .ok {
        decision := {
          mode := .schemaContract, reason := "structured verification", autoRouted := true }
        emission := emission.toEmission
        signals := [
          signal "sig-" "task" (.emission (Text.sliceTo emission.content 200)),
          signal "sig-ts-" "quality" (.other "schema.validated")] ++
          if emission.wasTruncated then
            [truncatedSignal taskId emission.toEmission now ("model output was truncated " ++
              "(finish_reason: " ++ emission.finishReason.getD "undefined" ++
              ") — schema contract output may be incomplete")]
          else [] }

/-- The result of a task that is decomposed. -/
def decomposedResult (decision : DelegationDecision) (now : String) (d : DecompositionResult) :
    DelegationResult where
  decision
  emission := {
    agentId := "decomposer"
    content := String.ofList (stringifyNodes d.tasks)
    promptTokens := d.totalEstimatedTokens
    completionTokens := 0
    totalTokens := d.totalEstimatedTokens
    model := "decompose"
    format := .taskDecompose }
  signals := [{
    id := "sig-" ++ taskId
    taskId
    domain := "task"
    source := "decomposer"
    ts := now
    value := .other "decomposed" }]

/-- The modes in which the agent of a delegation is asked. -/
inductive AgentMode
  | hardPrompt | schemaContract | artifact
  deriving DecidableEq

def AgentMode.mode : AgentMode → DelegationMode
  | hardPrompt => .hardPrompt
  | schemaContract => .schemaContract
  | artifact => .artifact

def DelegateEnv.writeArtifacts (artifacts : List ParsedArtifact) (disk : ArtifactDisk) :
    ArtifactDisk × List WriteResult :=
  KirkForge.writeArtifacts env.sha256 cwd (profile.map EmissionSchema.like) w.io 0 disk artifacts

def AgentMode.execute (mode : AgentMode) (targetFile : Option String)
    (result : Except String AgentEmission) (disk : ArtifactDisk) :
    ArtifactDisk × Except String DelegationResult :=
  match mode with
  | hardPrompt => executeHardPrompt env cwd profile taskId w targetFile result disk
  | schemaContract => (disk, executeSchemaContract taskId w.now result)
  | artifact => executeArtifact env.artifact (env.writeArtifacts cwd profile w) taskId w.now
      (profile.map (·.toTaskProfile)) (result.map (·.toEmission)) disk

end Modes

/-! ### Calls -/

namespace Delegate

/-- How far a call is: at which `await` it is, or what it has settled with. -/
inductive Phase
  | recalling
  | asking (mode : AgentMode) (cwd : AbsPath)
  | decomposing (provider : ModelProviderConfig) (retried : Bool)
  | emitting (value : DelegationResult) (events : List ReducerSignal)
  | verifying (value : DelegationResult) (events : List ReducerSignal)
  | remembering (value : DelegationResult)
  | done (result : Settled ExecutionError (Option DelegationResult))

/-- What decides whether a task is let in. -/
structure Gate where
  policy : Option PolicyHolder
  shuttingDown : Bool

/-- The fields of the orchestrator and the files on disk. -/
structure Shared extends Gate where
  cwd : AbsPath
  state : DelegationState
  disk : ArtifactDisk

/-- A call of `delegate`. The fields from `gate` on record what has happened; of them it reads the
recommendation only. -/
structure Call where
  task : TaskInput
  taskId : String
  classified : DelegationDecision
  phase : Phase
  /-- When the call was made. -/
  gate : Gate
  recommendation : Option Recommendation := none
  /-- When the task was decomposed. -/
  gateThen : Option Gate := none
  /-- Where the agent writes. -/
  cwd : Option AbsPath := none
  /-- The providers of the agents that have been executed. An execution asks its model once, or
  again in schema-contract mode if the first answer has no contract. -/
  executions : List ModelProviderConfig := []
  /-- What the mode made of the answer. -/
  emitted : Option DelegationResult := none

/-- What a call waits for. -/
inductive Reply
  | recalled (recommendation : Option Recommendation)
  | answered (result : Settled String AgentEmission) (w : WriterIo)
  /-- The bus has delivered the next event of the call or dropped it. -/
  | delivered (dropped : Bool)
  | startVerifiers (verifiers : VerifierEnv)
  | verified (now : String)
  | remembered

inductive Outside
  | chdir (cwd : AbsPath)
  | setPolicy (policy : Option PolicyHolder)
  | gracefulShutdown

structure Request where
  task : TaskInput
  /-- `Date.now()` -/
  now : Nat
  classified : DelegationDecision

def Call.goto (c : Call) (phase : Phase) : Call := { c with phase }

def Call.settle (c : Call) (result : Settled ExecutionError (Option DelegationResult)) : Call :=
  c.goto (.done result)

def Shared.outside (s : Shared) : Outside → Shared
  | .chdir cwd => { s with cwd }
  | .setPolicy policy => { s with policy }
  | .gracefulShutdown => { s with shuttingDown := true }

/-- The checks at the start of `delegate` and of `decomposeTask`. -/
def Gate.letIn (gate : Gate) (task : TaskInput) : Settled ExecutionError Unit :=
  if gate.shuttingDown then .failed (.message "Orchestrator is shutting down")
  else KirkForge.letIn env gate.policy task

/-- `delegate` up to its first `await`. -/
def Shared.start (s : Shared) (r : Request) : Call :=
  let c : Call := {
    task := r.task
    taskId := r.task.taskId.getD ("task-" ++ toString r.now)
    classified := r.classified
    phase := .recalling
    gate := s.toGate }
  match s.toGate.letIn env r.task with
  | .ok () => c
  | .failed e => c.settle (.failed e)
  | .threw message => c.settle (.threw message)

namespace Call

variable (c : Call)

def noLanguage : Settled ExecutionError (Option DelegationResult) :=
  .threw "Cannot read properties of undefined (reading 'language')"

def ask (mode : AgentMode) (cwd : AbsPath) (provider : ModelProviderConfig) : Call :=
  { c with phase := .asking mode cwd, cwd := some cwd, executions := c.executions ++ [provider] }

def askDecomposer (provider : ModelProviderConfig) (retried : Bool) : Call :=
  { c with phase := .decomposing provider retried, executions := c.executions ++ [provider] }

/-- `decomposeTask` up to its first `await`. -/
def decomposeTask (s : Shared) : Call :=
  let c := { c with gateThen := some s.toGate }
  match s.toGate.letIn env c.task with
  | .failed e => c.settle (.failed e)
  | .threw message => c.settle (.threw message)
  | .ok () =>
    match env.modelConfig.providers.get? env.decomposeProvider with
    | none => c.settle
        (.failed (.message ("Provider \"" ++ env.decomposeProvider ++ "\" not found")))
    | some provider => c.askDecomposer provider false

/-- What follows the `await` of the memory. -/
def recalled (s : Shared) (recommendation : Option Recommendation) : Call :=
  let c := { c with recommendation }
  match resolveProvider env recommendation with
  | none => c.settle (.threw "No provider found")
  | some provider =>
    match c.task.mode (c.task.decision c.classified) recommendation with
    | none => c.settle (.ok none)
    | some .hardPrompt => c.ask .hardPrompt s.cwd provider
    | some .schemaContract =>
      if c.task.hasProfile then c.ask .schemaContract s.cwd provider else c.settle noLanguage
    | some .artifact => c.ask .artifact s.cwd provider
    | some .taskDecompose => c.decomposeTask env s

/-- `finalizeDelegation` starts with a result. -/
def emit (value : DelegationResult) : Call :=
  { c with
    emitted := some value
    phase := .emitting { value with providerResolved := some env.providerKey }
      (value.signals.filterMap DelegationSignal.toEvent?) }

/-- What follows the `await` of a mode. -/
def executed (s : Shared) (result : ArtifactDisk × Except String DelegationResult) :
    Shared × Call :=
  ({ s with disk := result.1 },
    match result.2 with
    | .error message => c.settle (.failed (.message message))
    | .ok value => c.emit env value)

def answered (s : Shared) (mode : AgentMode) (cwd : AbsPath) (w : WriterIo) :
    Settled String AgentEmission → Shared × Call
  | .threw message => (s, c.settle (.threw message))
  | .failed message => c.executed env s
      (mode.execute env cwd c.task.profile c.taskId w c.task.targetFile (.error message) s.disk)
  | .ok emission => c.executed env s
      (mode.execute env cwd c.task.profile c.taskId w c.task.targetFile (.ok emission) s.disk)

/-- The reason of the decision, with what the memory adds to it. -/
def routedReason : String :=
  let decision := c.task.decision c.classified
  match c.recommendation with
  | none => decision.reason
  | some r =>
    if c.task.modeOverride = none ∧ 75 / 100 ≤ r.confidence ∧ 3 ≤ r.evidence then
      decision.reason ++ "; memory bias " ++ r.mode ++ " (" ++ toString r.evidence ++ " similar)"
    else decision.reason

/-- What follows an answer that has been parsed as a decomposition. -/
def parsed (provider : ModelProviderConfig) (retried : Bool) (now content : String) :
    Option (Except String DecompositionResult) → Call
  | none => c.settle (.threw (env.conversionMessage content))
  | some (.error message) =>
    if retried then
      c.settle (.failed (.message ("Decomposition failed after retry: " ++ message)))
    else c.askDecomposer provider true
  | some (.ok d) => c.emit env (decomposedResult c.taskId {
      mode := .taskDecompose
      reason := c.routedReason
      autoRouted := (c.task.decision c.classified).autoRouted } now d)

/-- What follows an `await` of `decomposeTask`. -/
def decomposed (provider : ModelProviderConfig) (retried : Bool) (now : String) :
    Settled String AgentEmission → Call
  | .threw message => c.settle (.threw message)
  | .failed message => c.settle (.failed (.message message))
  | .ok emission => c.parsed env provider retried now emission.content
      (parseDecomposition env.syntaxMessage emission.content)

def writtenFiles (value : DelegationResult) : Option (List String) :=
  some (extractWrittenFiles value)

def startVerifiers (value : DelegationResult) (verifiers : VerifierEnv) : Call :=
  if c.task.hasProfile then
    c.goto (.verifying value (runVerifiers verifiers c.taskId (writtenFiles value)
      (c.task.profile.map (·.language)) (writtenFiles value)))
  else c.settle noLanguage

/-- The end of `finalizeDelegation`. -/
def finish (s : Shared) (value : DelegationResult) : Shared × Call :=
  ({ s with state := { s.state with stats := {
      totalDelegations := s.state.stats.totalDelegations + 1
      totalTokens := s.state.stats.totalTokens + value.emission.totalTokens } } },
    c.settle (.ok (some value)))

/-- The packet that is attached to a result. -/
def packet (s : Shared) (value : DelegationResult) (now : String) : ReducedStatePacket :=
  -- the mode that has been run is the one of the result
  emptyEmissionOverride value.decision.mode (s.state.reducer.reduce c.taskId 0
    c.task.requiredVerifiers (s.policy.map (·.getHash)) now)

/-- What follows the verifiers, up to the `await` of the memory if there is one. -/
def verified (s : Shared) (value : DelegationResult) (now : String) : Shared × Call :=
  let value := { value with packet := some (c.packet s value now) }
  if c.task.suppressMemory = some true then c.finish s value
  else (s, c.goto (.remembering value))

end Call

def Shared.deliver (s : Shared) (event : ReducerSignal) (dropped : Bool) : Shared :=
  if dropped then s
  else { s with state := { s.state with reducer := s.state.reducer.onSignal event } }

/-- A call goes on with what it has waited for. -/
def move (s : Shared) (c : Call) (reply : Reply) : Shared × Call :=
  match c.phase, reply with
  | .recalling, .recalled recommendation => (s, c.recalled env s recommendation)
  | .asking mode cwd, .answered result w => c.answered env s mode cwd w result
  | .decomposing provider retried, .answered result w =>
    (s, c.decomposed env provider retried w.now result)
  | .emitting value (event :: events), .delivered dropped =>
    (s.deliver event dropped, c.goto (.emitting value events))
  | .emitting value [], .startVerifiers verifiers => (s, c.startVerifiers value verifiers)
  | .verifying value (event :: events), .delivered dropped =>
    (s.deliver event dropped, c.goto (.verifying value events))
  | .verifying value [], .verified now => c.verified s value now
  | .remembering value, .remembered => c.finish s value
  | _, _ => (s, c)

/-- The calls of an orchestrator. -/
def calls : Processes Shared Call Outside Request Reply where
  outside := Shared.outside
  start := Shared.start env
  move := move env

end Delegate

end KirkForge
