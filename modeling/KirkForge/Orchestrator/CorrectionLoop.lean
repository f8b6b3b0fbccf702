import KirkForge.CorrectionCore.Types
import KirkForge.Orchestrator.DecideCorrection
import KirkForge.Orchestrator.Finalize
import KirkForge.Orchestrator.TruthModel
import KirkForge.Orchestrator.Workspace
import KirkForge.Theory.Text

/-!
# The correction loop

`runCorrectionLoop` of `orchestrator-correction.ts` as a state machine. A call is suspended at the
`await` points listed by `Pc`; `resume` runs it from one of them to the next, on the state that all
calls of one orchestrator share. What a segment of the source between two awaits does is one
function below, in the order of the source. The answers of the outside world (what a delegation
returns, how a validator process ends, which file operations throw) are inputs.
-/

/-!
## Task validators

`orchestrator-validators.ts`: which validator a configuration names, and what the exit of its
process says about the task. Paths are resolved absolute paths.
-/

namespace KirkForge

/-- The three forms of a validator configuration, by their fields. -/
structure ValidatorConfig where
  shellCommand : Option String := none
  command : Option String := none
  args : Option (List String) := none
  cwd : Option String := none
  deriving DecidableEq, Repr

structure StructuredValidatorConfig where
  command : String
  args : List String
  cwd : Option String
  deriving DecidableEq, Repr

/-- A string that is neither undefined nor empty. -/
def truthy (s : Option String) : Option String := s.filter (· ≠ "")

def resolveValidatorShellCommand : Option ValidatorConfig → Option String
  | none => none
  | some validator =>
    match truthy validator.shellCommand, validator.args with
    | some shellCommand, _ => some shellCommand
    | none, none => truthy validator.command
    | none, some _ => none

def resolveStructuredValidatorConfig : Option ValidatorConfig → Option StructuredValidatorConfig
  | some { command := some command, args := some args, cwd, .. } => some { command, args, cwd }
  | _ => none

/-- How a validator process ends. -/
inductive ExecOutcome
  | exited (stdout stderr : String)
  | failed (stdout stderr : String) (timedOut : Bool) (message : Option String)

def outputSummary (output : String) : Option String :=
  let lines := (Text.split '\n' output).map fun line => Text.trim line
  truthy (some (Text.sliceTo (Text.join "\n" ((lines.filter (· ≠ "")).take 8)) 2000))

def execOutput (stdout stderr : String) : String :=
  Text.trim (if stderr ≠ "" then stdout ++ "\n" ++ stderr else stdout)

/-- The result of a validator whose process ran for `durationMs`. -/
def ExecOutcome.result (validator : String) (durationMs : Nat) :
    ExecOutcome → TaskValidationResult
  | exited stdout stderr => {
      status := .pass, validator, durationMs := some durationMs
      reason := some ((outputSummary (execOutput stdout stderr)).getD "validator exited 0") }
  | failed stdout stderr timedOut message => {
      status := if timedOut then .error else .fail, validator, durationMs := some durationMs
      reason := some ((outputSummary (execOutput stdout stderr) <|> truthy message).getD
        (if timedOut then "validator timed out" else "validator exited non-zero")) }

def StructuredValidatorConfig.name (config : StructuredValidatorConfig) : String :=
  config.command ++ " " ++ Text.join " " config.args

/-- Whether `relative(isolatedBase, cwd)` leads out of the isolated workspace, or names it. -/
def escapesWorkspace (isolatedBase cwd : String) : Bool :=
  let below := isolatedBase ++ "/"
  !(Text.startsWith cwd below) ||
    let rel := Text.sliceFrom cwd below.length
    rel = "" || Text.startsWith rel ".."

def escapeResult (config : StructuredValidatorConfig) (cwd isolatedBase : String)
    (durationMs : Nat) : TaskValidationResult where
  status := .error
  validator := config.name
  reason := some ("validator cwd (" ++ cwd ++ ") escapes isolated workspace (" ++ isolatedBase ++
    ")")
  durationMs := some durationMs

def shellDisabledResult (command : String) : TaskValidationResult where
  status := .error
  validator := command
  reason := some ("validator-shell is disabled: set ALLOW_UNSAFE_VALIDATOR_SHELL=1 to enable raw " ++
    "shell validators")
  durationMs := some 0

/-- The result of a validator is never that it was skipped. -/
theorem ExecOutcome.result_status_ne_skipped (validator : String) (durationMs : Nat)
    (o : ExecOutcome) : (o.result validator durationMs).status ≠ .skipped := by
  cases o with
  | exited => nofun
  | failed _ _ timedOut _ => cases timedOut <;> nofun

end KirkForge

/-! ## The loop -/

namespace KirkForge

abbrev DirId := Nat

abbrev Tree := Directory String

/-- A working directory: the user's, or one made by `mkdtempSync`. -/
inductive Place
  | user
  | tmp (dir : DirId)
  deriving DecidableEq

structure Disk where
  user : Tree
  tmp : OrderedMap DirId Tree
  /-- The next directory that `mkdtempSync` makes. -/
  next : DirId

namespace Disk

def mkdtemp (d : Disk) (content : Tree) : Disk :=
  { d with tmp := d.tmp.set d.next content, next := d.next + 1 }

def rm (d : Disk) (dir : DirId) : Disk := { d with tmp := d.tmp.delete dir }

def write (d : Disk) (dir : DirId) (content : Tree) : Disk :=
  if d.tmp.has dir then { d with tmp := d.tmp.set dir content } else d

def tree (d : Disk) : Place → Tree
  | .user => d.user
  | .tmp dir => (d.tmp.get? dir).getD .nil

end Disk

structure LearnedExample where
  description : String
  mode : DelegationMode
  outcomeClass : String
  deriving DecidableEq, Repr

/-- What does not change while an orchestrator lives. -/
structure LoopEnv where
  classifyTask : TaskInput → Option (List LearnedExample) → DelegationMode
  policyHash : Option String
  allowUnsafeValidatorShell : Bool
  cwdPath : String

def LoopEnv.path (env : LoopEnv) : Place → String
  | .user => env.cwdPath
  | .tmp dir => "/tmp/kirkforge-" ++ toString dir

/-- The fields of the orchestrator that the correction loop reads or writes. -/
structure OrchestratorState where
  busy : Bool
  cwd : Place
  delegation : DelegationState
  classifierMemory : Option (List LearnedExample)
  classifierLoaded : Bool
  baselineSnapshotDir : Option DirId
  isolatedBaselineDirs : List DirId
  isolatedWorkspaceDirs : List DirId
  activeTurnWorkspace : Option DirId
  disk : Disk

/-- An orchestrator that has run nothing yet, over the files of the user's directory. -/
def OrchestratorState.fresh (user : Tree) (classifierMemory : Option (List LearnedExample)) :
    OrchestratorState where
  busy := false
  cwd := .user
  delegation := .empty
  classifierMemory
  classifierLoaded := false
  baselineSnapshotDir := none
  isolatedBaselineDirs := []
  isolatedWorkspaceDirs := []
  activeTurnWorkspace := none
  disk := { user, tmp := ∅, next := 0 }

structure CorrectionLoopConfig where
  maxCorrections : Int
  maxCost : Option ℚ := none
  validator : Option ValidatorConfig := none

def CorrectionLoopConfig.hasValidator (config : CorrectionLoopConfig) : Bool :=
  (resolveValidatorShellCommand config.validator).isSome ||
    (resolveStructuredValidatorConfig config.validator).isSome

structure CorrectionLoopOutcome where
  finalAction : FinalAction
  finalVerdict : FinalVerdict
  sourceOfTruth : SourceOfTruth
  taskValidation : TaskValidationResult
  taskOutcome : TaskOutcome
  turns : List CorrectionDecision
  allPackets : List ReducedStatePacket
  sessionTokens : Nat
  sessionCost : ℚ
  validatorDurationMs : Nat
  deriving DecidableEq

/-- How `runIsolatedTurn` settles. -/
inductive TurnResult
  | ok (value : DelegationResult)
  | failed (message : String)
  | threw (message : String)

/-- The `await` points of a call, with the local constants that are live there. -/
inductive Pc
  | loading
  | delegating (turnWorkspace : DirId) (savedCwd : Place)
  | turnReturned (result : TurnResult)
  | isolating (packet : ReducedStatePacket) (workerTokens : Nat) (isolated : Except String DirId)
  | validating (packet : ReducedStatePacket) (workerTokens : Nat) (validator : String)
  | validated (packet : ReducedStatePacket) (workerTokens : Nat)
      (validation : TaskValidationResult)
  | importing
  | writingMemory
  | flushing
  | crashFlushing (message : String)
  | finished (outcome : CorrectionLoopOutcome)
  | rejected

/-- How a recorded turn came to its decision, and what its validator said. -/
inductive TurnRecord
  | delegationFailed
  | validatorError (validation : TaskValidationResult)
  | judged (validation : Option TaskValidationResult)
  | crashed
  deriving DecidableEq

/-- The baseline that a turn was started from, and the files it started with. -/
structure TurnStart where
  baseline : DirId
  files : Tree

/-- The local variables of a call. The last five fields record its history and do not influence it:
what each entry of `turns` rests on, how each delegation started, and the temporary directories
that the call made for itself and has not removed. -/
structure CallState where
  config : CorrectionLoopConfig
  originalDescription : String
  baseId : String
  task : TaskInput
  taskId : String
  turns : List CorrectionDecision := []
  allPackets : List ReducedStatePacket := []
  sessionTokens : Nat := 0
  sessionCost : ℚ := 0
  taskValidation : TaskValidationResult :=
    makeSkippedValidation "none" "no task validator configured"
  actualMode : DelegationMode := .hardPrompt
  actualModel : String := "unknown"
  turn : Nat := 0
  baselineCwd : DirId := 0
  pc : Pc
  records : List TurnRecord := []
  starts : List TurnStart := []
  turnDir : Option DirId := none
  validatorDirs : List DirId := []

namespace CallState

def profile (l : CallState) : TaskProfile := detectTaskProfile l.originalDescription

def shellCommand (l : CallState) : Option String := resolveValidatorShellCommand l.config.validator

def structuredValidator (l : CallState) : Option StructuredValidatorConfig :=
  resolveStructuredValidatorConfig l.config.validator

def hasValidator (l : CallState) : Bool := l.config.hasValidator

/-- What the call returned, once it has. -/
def outcome? (l : CallState) : Option CorrectionLoopOutcome :=
  match l.pc with
  | .finished outcome => some outcome
  | _ => none

/-- Append to `turns` and `allPackets`. -/
def push (l : CallState) (decision : CorrectionDecision) (packet : ReducedStatePacket)
    (record : TurnRecord) : CallState :=
  { l with
    turns := l.turns ++ [decision]
    allPackets := l.allPackets ++ [packet]
    records := l.records ++ [record] }

end CallState

/-- The file operations of a segment that throw, with the message. -/
structure Faults where
  snapshot : Option String := none
  turnDir : Option String := none
  turnCopy : Option String := none
  validatorDir : Option String := none

/-- What a segment reads from outside: the clock and the outcome of its file operations. -/
structure Tick where
  now : String
  durationMs : Nat := 0
  faults : Faults := {}

/-- How `delegate` settles: it throws, it returns an error, or the executor of the task's mode
returned a result and `finalizeDelegation` runs with the given arguments, the task id apart. -/
inductive DelegateOutcome
  | threw (message : String)
  | failed (message : String)
  | executed (value : DelegationResult) (args : FinalizeArgs)

/-- What the awaited promise of a suspended call settles with. -/
inductive Answer
  | settled
  | delegated (outcome : DelegateOutcome) (files : Tree)
  | exited (outcome : ExecOutcome)
  | rejected (message : String)

/-! ### The workspaces -/

def cleanupTurnWorkspace (s : OrchestratorState) : OrchestratorState :=
  match s.activeTurnWorkspace with
  | some dir => { s with disk := s.disk.rm dir, activeTurnWorkspace := none }
  | none => s

theorem cleanupTurnWorkspace_busy (s : OrchestratorState) :
    (cleanupTurnWorkspace s).busy = s.busy := by
  rw [cleanupTurnWorkspace]
  split <;> rfl

def cleanupIsolatedWorkspace (s : OrchestratorState) : OrchestratorState :=
  { s with disk := s.isolatedWorkspaceDirs.foldl Disk.rm s.disk, isolatedWorkspaceDirs := [] }

def ensureBaselineSnapshot (env : LoopEnv) (tick : Tick) (s : OrchestratorState) :
    OrchestratorState × Except String DirId :=
  match s.baselineSnapshotDir, tick.faults.snapshot with
  | some dir, _ => (s, .ok dir)
  | none, some message => (s, .error message)
  | none, none =>
    let dir := s.disk.next
    let content := baselineSnapshot (env.path s.cwd) (s.disk.tree s.cwd)
    ({ s with
      disk := s.disk.mkdtemp content
      baselineSnapshotDir := some dir
      isolatedBaselineDirs := s.isolatedBaselineDirs ++ [dir] }, .ok dir)

/-- The names of a path relative to a workspace, unless it leads out of it. -/
def workspacePath (path : String) : Option (List FileName) :=
  if Text.startsWith path "/" then none
  else
    (Text.split '/' path).foldlM (fun (names : List FileName) (segment : String) =>
      if segment = "" ∨ segment = "." then some names
      else if segment = ".." then (if names = [] then none else some names.dropLast)
      else if h : segment ≠ "" ∧ '/' ∉ segment.toList then some (names ++ [⟨segment, h.1, h.2⟩])
      else none) []

/-- The synchronous part of `createIsolatedWorkspace`. -/
def createIsolatedWorkspace (env : LoopEnv) (tick : Tick) (emittedFiles : List String)
    (baselineDir : Option DirId) (s : OrchestratorState) (l : CallState) :
    OrchestratorState × CallState × Except String DirId :=
  match tick.faults.validatorDir with
  | some message => (s, l, .error message)
  | none =>
    let baseline := (baselineDir.map Place.tmp).getD s.cwd
    let dir := s.disk.next
    let files := (emittedFiles.filterMap workspacePath).map fun path => { path }
    let content := isolatedWorkspace (env.path baseline) (s.disk.tree baseline) files
    ({ s with
      disk := s.disk.mkdtemp content
      isolatedWorkspaceDirs := s.isolatedWorkspaceDirs ++ [dir] },
      { l with validatorDirs := l.validatorDirs ++ [dir] }, .ok dir)

/-! ### The segments -/

abbrev Suspended := OrchestratorState × CallState

def reducePacket (env : LoopEnv) (tick : Tick) (s : OrchestratorState) (l : CallState)
    (turn : Nat) : ReducedStatePacket :=
  s.delegation.reducer.reduce l.taskId turn (some l.profile.verifierPolicy) env.policyHash tick.now

def learn (s : OrchestratorState) (example' : LearnedExample) : OrchestratorState :=
  { s with classifierMemory := s.classifierMemory.map (· ++ [example']) }

/-- The `catch` block, up to its `await`. -/
def crash (env : LoopEnv) (tick : Tick) (message : String) (s : OrchestratorState)
    (l : CallState) : Suspended :=
  let packet := reducePacket env tick s l 0
  let decision : CorrectionDecision := {
    action := .escalate
    rationale := "internal orchestrator error: " ++ message
    packet
    correctionCount := l.turns.length
    workerTokens := 0
    sessionTokens := l.sessionTokens }
  (learn { s with busy := false } ⟨l.originalDescription, .hardPrompt, "validator_error"⟩,
    { l.push decision packet .crashed with pc := .crashFlushing message })

/-- The call has removed its turn workspace. -/
def leaveTurn (l : CallState) : CallState := { l with turnDir := none }

/-- The `finally` block. -/
def leave (outcome : CorrectionLoopOutcome) (s : OrchestratorState) (l : CallState) : Suspended :=
  (cleanupTurnWorkspace (cleanupIsolatedWorkspace { s with busy := false }),
    { leaveTurn l with validatorDirs := [], pc := .finished outcome })

/-- What follows the turn loop, up to the import of the truth model. -/
def afterLoop (env : LoopEnv) (tick : Tick) (s : OrchestratorState) (l : CallState) : Suspended :=
  let s := cleanupTurnWorkspace s
  let l := leaveTurn l
  match l.turns.getLast? with
  | none => crash env tick "Cannot read properties of undefined (reading 'action')" s l
  | some _ => (s, { l with pc := .importing })

/-- `runIsolatedTurn`, up to the call of `delegate`. -/
def startTurn (env : LoopEnv) (tick : Tick) (s : OrchestratorState) (l : CallState) : Suspended :=
  match tick.faults.turnDir, tick.faults.turnCopy with
  | some message, _ => (s, { l with pc := .turnReturned (.threw message) })
  | none, some message =>
    ({ s with disk := s.disk.mkdtemp .nil, activeTurnWorkspace := some s.disk.next },
      { l with turnDir := some s.disk.next, pc := .turnReturned (.threw message) })
  | none, none =>
    let files :=
      turnWorkspace (env.path (.tmp l.baselineCwd)) (s.disk.tree (.tmp l.baselineCwd))
    ({ s with disk := s.disk.mkdtemp files, cwd := .tmp s.disk.next },
      { l with
        starts := l.starts ++ [⟨l.baselineCwd, files⟩]
        turnDir := some s.disk.next
        pc := .delegating s.disk.next s.cwd })

def loopHead (env : LoopEnv) (tick : Tick) (s : OrchestratorState) (l : CallState) : Suspended :=
  if (l.turn : Int) ≤ l.config.maxCorrections then startTurn env tick s l
  else afterLoop env tick s l

def beginLoop (env : LoopEnv) (tick : Tick) (s : OrchestratorState) (l : CallState) : Suspended :=
  let l := { l with actualMode := env.classifyTask l.task s.classifierMemory }
  match ensureBaselineSnapshot env tick s with
  | (s, .error message) => crash env tick message s l
  | (s, .ok dir) => loopHead env tick s { l with baselineCwd := dir }

/-- The local variables at the start; `taskIdNow` is the task id made from the clock. -/
def CallState.initial (taskIdNow : String) (task : TaskInput) (config : CorrectionLoopConfig) :
    CallState where
  config
  originalDescription := task.description
  baseId := task.taskId.getD taskIdNow
  task
  taskId := task.taskId.getD taskIdNow
  pc := .loading

/-- The call, up to its first `await`. -/
def startCall (env : LoopEnv) (tick : Tick) (taskIdNow : String) (task : TaskInput)
    (config : CorrectionLoopConfig) (s : OrchestratorState) : Suspended :=
  let l := CallState.initial taskIdNow task config
  if s.busy then (s, { l with pc := .rejected })
  else
    let s := { s with busy := true }
    if s.classifierMemory.isSome ∧ s.classifierLoaded = false then (s, l)
    else beginLoop env tick s l

/-- `delegate` settles: the `finally` blocks of `runIsolatedTurn`. -/
def afterDelegate (s : OrchestratorState) (l : CallState) (turnWorkspace : DirId)
    (savedCwd : Place) (outcome : DelegateOutcome) (files : Tree) : Suspended :=
  let (delegation, result) : DelegationState × TurnResult :=
    match outcome with
    | .threw message => (s.delegation, .threw message)
    | .failed message => (s.delegation, .failed message)
    | .executed value args =>
      let (delegation, value) := finalizeValue s.delegation value { args with taskId := l.taskId }
      (delegation, .ok value)
  ({ s with
    delegation
    disk := s.disk.write turnWorkspace files
    cwd := savedCwd
    activeTurnWorkspace := some turnWorkspace },
    { l with pc := .turnReturned result })

/-- The text for the next turn's description. -/
def correctedDescription (l : CallState) (decision : CorrectionDecision) : String :=
  let v := l.taskValidation
  let validatorFeedback :=
    if v.status = .fail then
      "\n\nExternal task validator (" ++ v.validator ++ ") " ++ v.status.name ++ ": " ++
        v.reason.getD "no reason provided"
    else ""
  l.task.description ++ "\n\n" ++ decision.correctionPrompt.getD "" ++ validatorFeedback

/-- The local state at the top of the turn that makes the correction. -/
def nextTurn (l : CallState) (decision : CorrectionDecision) : CallState :=
  let taskId := l.baseId ++ "-c" ++ toString (l.turn + 1)
  { l with
    task := { l.task with
      description := correctedDescription l decision, taskId := some taskId }
    taskId
    turn := l.turn + 1 }

/-- The validator could not be run. -/
def validatorErrored (env : LoopEnv) (tick : Tick) (packet : ReducedStatePacket)
    (workerTokens : Nat) (s : OrchestratorState) (l : CallState) : Suspended :=
  let decision : CorrectionDecision := {
    action := .escalate
    rationale := "validator infrastructure error: " ++ l.taskValidation.reason.getD "unknown"
    packet
    correctionCount := l.turn
    workerTokens
    sessionTokens := l.sessionTokens }
  afterLoop env tick s (l.push decision packet (.validatorError l.taskValidation))

/-- The decision on a turn with the given packet. -/
def decideTurn (packet : ReducedStatePacket) (workerTokens : Nat) (l : CallState) :
    CorrectionDecision :=
  decideCorrection packet l.turn l.config.maxCorrections workerTokens l.sessionTokens
    l.sessionCost l.config.maxCost (some l.profile.language) l.task.taskPass

def judge (env : LoopEnv) (tick : Tick) (packet : ReducedStatePacket) (workerTokens : Nat)
    (ran : Option TaskValidationResult) (s : OrchestratorState) (l : CallState) : Suspended :=
  let decision := decideTurn packet workerTokens l
  let l := l.push decision packet (.judged ran)
  if decision.action = .correct then loopHead env tick s (nextTurn l decision)
  else afterLoop env tick s l

/-- The rest of a turn once its validator, if there is one, has answered. -/
def afterValidation (env : LoopEnv) (tick : Tick) (packet : ReducedStatePacket)
    (workerTokens : Nat) (ran : Option TaskValidationResult) (s : OrchestratorState)
    (l : CallState) : Suspended :=
  let s := cleanupTurnWorkspace s
  let l := leaveTurn l
  if l.taskValidation.status = .error then validatorErrored env tick packet workerTokens s l
  else judge env tick packet workerTokens ran s l

/-- The delegation failed without throwing. -/
def delegationFailed (env : LoopEnv) (tick : Tick) (message : String) (s : OrchestratorState)
    (l : CallState) : Suspended :=
  let packet := reducePacket env tick s l l.turn
  let decision : CorrectionDecision := {
    action := .escalate
    rationale := "delegation failed: " ++ message
    packet
    correctionCount := l.turn
    workerTokens := 0
    sessionTokens := l.sessionTokens }
  afterLoop env tick (cleanupTurnWorkspace s)
    (leaveTurn (l.push decision packet .delegationFailed))

/-- Add the emission of a turn to the session. -/
def account (value : DelegationResult) (l : CallState) : CallState :=
  let emission := value.emission
  let costKey := resolveCostProviderKey (value.providerResolved.getD "local-ollama")
  { l with
    actualMode := emission.format
    actualModel := emission.model
    sessionTokens := l.sessionTokens + emission.totalTokens
    sessionCost := l.sessionCost +
      estimateSimpleCost costKey emission.promptTokens emission.completionTokens }

/-- Make the workspace in which the validator will run. -/
def isolate (env : LoopEnv) (tick : Tick) (packet : ReducedStatePacket) (workerTokens : Nat)
    (s : OrchestratorState) (l : CallState) : Suspended :=
  let emittedFiles := ((packet.emissions.map (·.files)).getD []).map (·.path)
  let made := createIsolatedWorkspace env tick emittedFiles s.activeTurnWorkspace s l
  (made.1, { made.2.1 with pc := .isolating packet workerTokens made.2.2 })

/-- The delegation returned a result: account for it and call the validator. -/
def afterTurn (env : LoopEnv) (tick : Tick) (value : DelegationResult) (s : OrchestratorState)
    (l : CallState) : Suspended :=
  let l := account value l
  let workerTokens := value.emission.totalTokens
  let packet := value.packet.getD (reducePacket env tick s l l.turn)
  match l.structuredValidator, l.shellCommand with
  | some _, _ => isolate env tick packet workerTokens s l
  | none, some command =>
    if env.allowUnsafeValidatorShell then isolate env tick packet workerTokens s l
    else (s, { l with pc := .validated packet workerTokens (shellDisabledResult command) })
  | none, none => afterValidation env tick packet workerTokens none s l

/-- The validator's workspace is there: start its process. -/
def startValidator (env : LoopEnv) (tick : Tick) (packet : ReducedStatePacket) (workerTokens : Nat)
    (isolated : DirId) (s : OrchestratorState) (l : CallState) : Suspended :=
  match l.structuredValidator with
  | some config =>
    let base := env.path (.tmp isolated)
    match (truthy config.cwd).filter fun cwd => escapesWorkspace base cwd with
    | some cwd =>
      (s, { l with
        pc := .validated packet workerTokens (escapeResult config cwd base tick.durationMs) })
    | none => (s, { l with pc := .validating packet workerTokens config.name })
  | none => (s, { l with pc := .validating packet workerTokens (l.shellCommand.getD "") })

/-- `taskValidation` and `task.taskPass` after a validator has run. -/
def recordValidation (l : CallState) (validation : TaskValidationResult) : CallState :=
  let taskPass :=
    match validation.status with
    | .pass => some true
    | .fail => some false
    | _ => none
  { l with taskValidation := validation, task := { l.task with taskPass } }

/-! ### The outcome -/

def finalAction (l : CallState) : FinalAction :=
  if l.hasValidator ∧ l.taskValidation.status ≠ .pass then .escalate
  else if l.turns.getLast?.map (·.action) = some .accept then .accept
  else .escalate

def lastPacket (l : CallState) : Option ReducedStatePacket := l.allPackets.getLast?

/-- The last packet carries an unterminated or truncated artifact. -/
def protocolBroken (packet : Option ReducedStatePacket) : Bool :=
  match packet.bind (·.artifactEnforcement) with
  | some e => e.status = .fail && (e.unterminated = some true || e.truncated = some true)
  | none => false

def truth (l : CallState) : TruthOutput :=
  computeFinalVerdict {
    taskValidation := l.taskValidation
    hasValidator := l.hasValidator
    finalAction := finalAction l
    packet := lastPacket l
    profile := l.profile
    actualMode := l.actualMode
    protocolBroken := protocolBroken (lastPacket l) }

def loopOutcome (l : CallState) : CorrectionLoopOutcome where
  finalAction := finalAction l
  finalVerdict := (truth l).finalVerdict
  sourceOfTruth := (truth l).sourceOfTruth
  taskValidation := l.taskValidation
  taskOutcome := taskOutcomeFromValidation l.taskValidation
  turns := l.turns
  allPackets := l.allPackets
  sessionTokens := l.sessionTokens
  sessionCost := l.sessionCost
  validatorDurationMs := l.taskValidation.durationMs.getD 0

def crashOutcome (l : CallState) (message : String) : CorrectionLoopOutcome where
  finalAction := .escalate
  finalVerdict := .unknown
  sourceOfTruth := .verifier
  taskValidation := { status := .error, validator := "orchestrator", reason := some message }
  taskOutcome := .error
  turns := l.turns
  allPackets := l.allPackets
  sessionTokens := l.sessionTokens
  sessionCost := l.sessionCost
  validatorDurationMs := 0

def outcomeClass (l : CallState) : String :=
  if taskOutcomeFromValidation l.taskValidation = .pass then "pass"
  else if l.taskValidation.status = .error then "validator_error"
  else "task_fail"

/-! ### Resumption -/

/-- Continue a suspended call with the answer it waits for. Any other answer, and a call that has
returned, changes nothing. -/
def resume (env : LoopEnv) (tick : Tick) (answer : Answer) (s : OrchestratorState)
    (l : CallState) : Suspended :=
  match l.pc, answer with
  | .loading, .settled => beginLoop env tick { s with classifierLoaded := true } l
  | .loading, .rejected message => crash env tick message s l
  | .delegating turnWorkspace savedCwd, .delegated outcome files =>
    afterDelegate s l turnWorkspace savedCwd outcome files
  | .turnReturned (.ok value), .settled => afterTurn env tick value s l
  | .turnReturned (.failed message), .settled => delegationFailed env tick message s l
  | .turnReturned (.threw message), .settled => crash env tick message s l
  | .isolating packet workerTokens (.ok isolated), .settled =>
    startValidator env tick packet workerTokens isolated s l
  | .isolating _ _ (.error message), .settled => crash env tick message s l
  | .validating packet workerTokens validator, .exited outcome =>
    (s, { l with
      pc := .validated packet workerTokens (outcome.result validator tick.durationMs) })
  | .validated packet workerTokens validation, .settled =>
    afterValidation env tick packet workerTokens (some validation) s
      (recordValidation l validation)
  | .importing, .settled => (s, { l with pc := .writingMemory })
  | .writingMemory, .settled =>
    (learn s ⟨l.originalDescription, l.actualMode, outcomeClass l⟩, { l with pc := .flushing })
  | .writingMemory, .rejected message => crash env tick message s l
  | .flushing, .settled => leave (loopOutcome l) s l
  | .flushing, .rejected message => crash env tick message s l
  | .crashFlushing message, .settled | .crashFlushing message, .rejected _ =>
    leave (crashOutcome l message) s l
  | _, _ => (s, l)

/-- One call run on its own: it is started and then given the answers in order. -/
def runCall (env : LoopEnv) (tick : Tick) (taskIdNow : String) (task : TaskInput)
    (config : CorrectionLoopConfig) (answers : List (Tick × Answer)) (s : OrchestratorState) :
    Suspended :=
  Run.run (fun c (i : Tick × Answer) => resume env i.1 i.2 c.1 c.2)
    (startCall env tick taskIdNow task config s) answers

end KirkForge
