import KirkForge.CoreTypes.Access
import KirkForge.Orchestrator.TopologicalSort
import KirkForge.Orchestrator.Types

/-!
# Executing a decomposition

`executeDecomposition` of `orchestrator-decompose.ts`. What the two delegate calls for a node settle
with is an input; a call that times out settles like one that throws. A node gets one entry for each
of its failed dependencies (the loop over the dependencies goes on after a skip), so every node has
exactly one entry if and only if no node has two failed dependencies (`oneResultEach_iff`).
-/

namespace KirkForge

structure SubtaskExecutionResult where
  nodeId : String
  ok : Bool
  description : String
  language : String
  durationMs : Nat
  tokensUsed : Nat
  verdict : Option String := none
  error : Option String := none
  files : Option (List String) := none
  deriving DecidableEq, Repr

structure DecompositionExecutionResult where
  rootTask : String
  results : List SubtaskExecutionResult
  totalSubtasks : Nat
  succeededCount : Nat
  failedCount : Int
  totalTokens : Nat
  totalDurationMs : Nat
  deriving DecidableEq, Repr

structure StoredDecomposition where
  description : String
  tasks : List TaskNode
  deriving DecidableEq, Repr

/-- How a promise settles: with a result that is ok or an error, or with an exception. -/
inductive Settled (ε α : Type)
  | ok (value : α)
  | failed (error : ε)
  | threw (message : String)

def Settled.value? {ε α : Type} : Settled ε α → Option α
  | ok value => some value
  | _ => none

inductive ExecutionError
  | message (text : String)
  | policyDenied (reason rule policyHash : String) (language : Option String)
  deriving DecidableEq, Repr

inductive Attempt
  | first | retry
  deriving DecidableEq, Repr

structure ExecutionEnv where
  shuttingDown : Bool
  recallDecomposition : Option (String → Except String (Option StoredDecomposition))
  policyEngine : Option PolicyChecks
  /-- The default model of the resolved provider; resolving it can throw. -/
  defaultModel : Except String String
  /-- What `delegate` settles with for the node of the given id. -/
  delegate : String → Attempt → Settled String DelegationResult
  subtaskDurationMs : String → Nat
  totalDurationMs : Nat

/-- A call of `delegate`, with the node it is made for and the results there were. -/
structure SubtaskCall where
  nodeId : String
  known : List SubtaskExecutionResult
  taskId : String
  description : String
  suppressMemory : Bool
  actor : Option Actor
  deriving DecidableEq, Repr

/-- The local variables of the loop over the nodes. The calls are recorded and do not influence
it. -/
structure Execution where
  completed : OrderedMap String SubtaskExecutionResult
  results : List SubtaskExecutionResult
  totalTokens : Nat
  calls : List SubtaskCall

def Execution.empty : Execution := ⟨∅, [], 0, []⟩

/-- `results.push(sr); completed.set(node.id, sr)`. -/
def Execution.push (x : Execution) (sr : SubtaskExecutionResult) : Execution :=
  { x with completed := x.completed.set sr.nodeId sr, results := x.results ++ [sr] }

def skipped (node : TaskNode) (depId : String) : SubtaskExecutionResult where
  nodeId := node.id
  ok := false
  description := node.description
  language := node.language
  durationMs := 0
  tokensUsed := 0
  error := some ("Skipped: dependency " ++ depId ++ " failed")

/-- The loop over `node.dependsOn`. -/
def checkDependencies (node : TaskNode) : List String → Execution → Except String Execution
  | [], x => .ok x
  | depId :: rest, x =>
    match x.completed.get? depId with
    | none =>
      .error ("Dependency " ++ depId ++ " for task " ++ node.id ++
        " was not found in execution plan")
    | some depResult =>
      checkDependencies node rest (if depResult.ok then x else x.push (skipped node depId))

/-- Delegate, and once more if that fails. -/
def delegateTwice (env : ExecutionEnv) (nodeId : String) : Except String DelegationResult :=
  match env.delegate nodeId .first with
  | .ok value => .ok value
  | .failed _ | .threw _ =>
    match env.delegate nodeId .retry with
    | .ok value => .ok value
    | .failed message | .threw message => .error message

/-- The calls of `delegate` for a node: the retry does not pass the actor on. -/
def delegateCalls (env : ExecutionEnv) (taskId : String) (actor : Option Actor) (node : TaskNode)
    (known : List SubtaskExecutionResult) : List SubtaskCall :=
  let first : SubtaskCall := {
    nodeId := node.id
    known
    taskId := taskId ++ "--" ++ node.id
    description := node.description
    suppressMemory := false
    actor }
  match env.delegate node.id .first with
  | .ok _ => [first]
  | .failed _ | .threw _ =>
    [first, { first with taskId := taskId ++ "--" ++ node.id ++ "-r", actor := none }]

def resultVerdict (value : DelegationResult) : String :=
  (value.packet.map (·.verification.overall.name)).getD "unknown"

def subtaskResult (env : ExecutionEnv) (node : TaskNode) : SubtaskExecutionResult :=
  match delegateTwice env node.id with
  | .error message => {
      nodeId := node.id
      ok := false
      description := node.description
      language := node.language
      durationMs := env.subtaskDurationMs node.id
      tokensUsed := 0
      error := some message }
  | .ok value =>
    let verdict := resultVerdict value
    let files := extractWrittenFiles value
    { nodeId := node.id
      ok := verdict = "pass" || verdict = "warn"
      description := node.description
      language := node.language
      durationMs := env.subtaskDurationMs node.id
      tokensUsed := value.emission.totalTokens
      verdict := some verdict
      files := if files.length > 0 then some files else none }

/-- The body of the loop over the nodes. -/
def executeNode (env : ExecutionEnv) (taskId : String) (actor : Option Actor) (x : Execution)
    (node : TaskNode) : Except String Execution :=
  match checkDependencies node node.dependsOn x with
  | .error message => .error message
  | .ok x =>
    if x.completed.has node.id then .ok x
    else
      let sr := subtaskResult env node
      let calls := x.calls ++ delegateCalls env taskId actor node x.results
      .ok { x.push sr with totalTokens := x.totalTokens + sr.tokensUsed, calls }

/-- The error with which a policy stops the execution. -/
def policyDenial (policy : PolicyChecks) (model : String) (tasks : List TaskNode) :
    Option ExecutionError :=
  let modelDecision := policy.checkModel model
  if modelDecision.allowed then
    let languages := (tasks.map (·.language)).eraseDups
    (languages.find? fun lang => !(policy.checkTool lang).allowed).map fun lang =>
      let toolDecision := policy.checkTool lang
      .policyDenied ("Tool policy denies language \"" ++ lang ++ "\" in decomposition: " ++
        toolDecision.reason) toolDecision.rule toolDecision.policyHash (some lang)
  else some (.policyDenied modelDecision.reason modelDecision.rule modelDecision.policyHash none)

/-- What follows the checks on the stored decomposition. -/
def executeTasks (env : ExecutionEnv) (taskId : String) (actor : Option Actor)
    (stored : StoredDecomposition) : Except String (DecompositionExecutionResult × Execution) :=
  match topologicalSort stored.tasks with
  | .error message =>
    .error ("Stored decomposition has invalid dependency graph: " ++ message)
  | .ok ordered =>
    match ordered.foldlM (executeNode env taskId actor) .empty with
    | .error message => .error message
    | .ok x =>
      let succeededCount := (x.results.filter (·.ok)).length
      .ok ({
        rootTask := stored.description
        results := x.results
        totalSubtasks := ordered.length
        succeededCount
        failedCount := ordered.length - succeededCount
        totalTokens := x.totalTokens
        totalDurationMs := env.totalDurationMs }, x)

/-- The stored decomposition that is executed, unless an error or an exception comes first. -/
def recallTasks (env : ExecutionEnv) (taskId : String) :
    Settled ExecutionError StoredDecomposition :=
  if env.shuttingDown then .failed (.message "Orchestrator is shutting down")
  else
    match env.recallDecomposition with
    | none => .failed (.message "Memory store required for decomposition execution")
    | some recallStored =>
      match recallStored taskId with
      | .error message => .failed (.message message)
      | .ok recalled =>
        match recalled.filter fun stored => stored.tasks.length ≠ 0 with
        | none => .failed (.message ("No decomposition found for taskId: " ++ taskId))
        | some stored =>
          match env.policyEngine, env.defaultModel with
          | none, _ => .ok stored
          | some _, .error message => .threw message
          | some policy, .ok model =>
            match policyDenial policy model stored.tasks with
            | some error => .failed error
            | none => .ok stored

/-- The result of `executeDecomposition`, with the loop variables it leaves behind. -/
def executeDecomposition (env : ExecutionEnv) (taskId : String) (actor : Option Actor) :
    Settled ExecutionError (DecompositionExecutionResult × Execution) :=
  match recallTasks env taskId with
  | .failed error => .failed error
  | .threw message => .threw message
  | .ok stored =>
    match executeTasks env taskId actor stored with
    | .error message => .failed (.message message)
    | .ok result => .ok result

end KirkForge
