import KirkForge.CorePolicy.Policy
import KirkForge.CorePolicy.Workspace
import KirkForge.Theory.JsonCoercion

/-!
# The checks on a policy that was loaded

`checkTool`, `checkModel`, `checkWorkspace` and `checkExecution` (`core-policy/src/index.ts`) for
fields of any type: the validator has not looked at them. A check that throws is `none`.
-/

namespace KirkForge

/-- `list.includes(text)` -/
def includes (list : List Json) (text : String) : Bool := Json.str text ∈ list

structure ExecutionParams where
  networkRequired : Option Bool := none
  runtimeSeconds : Option JsNumber := none
  memoryMb : Option JsNumber := none
  command : Option String := none

namespace PolicyHolder

variable (engine : PolicyHolder)

def checkTool (toolName : String) : PolicyDecision :=
  let policy := engine.policy.tools
  if includes policy.denied toolName then
    deny "tool_denied_list" ("Tool \"" ++ toolName ++ "\" is on the denied list") engine.hash
  else if policy.allowed.length = 0 then
    deny "tool_no_allowlist"
      ("No tool allowlist configured; tool \"" ++ toolName ++ "\" denied by default") engine.hash
  else if !includes policy.allowed toolName then
    deny "tool_not_allowed" ("Tool \"" ++ toolName ++ "\" is not on the allowed list") engine.hash
  else allow "tool_allowed" ("Tool \"" ++ toolName ++ "\" is allowed") engine.hash

def checkModel (modelId : String) (providerKey : Option String) : PolicyDecision :=
  let policy := engine.policy.models
  let allowed := allow "model_allowed" ("Model \"" ++ modelId ++ "\" is allowed") engine.hash
  if policy.allowed.length = 0 then
    deny "model_no_allowlist"
      ("No model allowlist configured; model \"" ++ modelId ++ "\" denied by default") engine.hash
  else if !includes policy.allowed modelId then
    deny "model_not_allowed" ("Model \"" ++ modelId ++ "\" is not on the allowed list") engine.hash
  else
    match providerKey with
    | none => allowed
    | some key =>
      if key ≠ "" ∧ policy.allowedProviders.length > 0 ∧ !includes policy.allowedProviders key then
        deny "provider_not_allowed"
          ("Provider \"" ++ key ++ "\" is not on the allowed provider list") engine.hash
      else allowed

/-! ### Workspaces -/

/-- The first root whose text begins that of the path, as `some` and `find` look for it. `resolve`
throws at a root that is no string. -/
def findRoot (cwd abs : AbsPath) : List Json → Option (Option String)
  | [] => some none
  | .str root :: roots =>
    if (cwd.resolve root).chars.isPrefixOf abs.chars then some (some root)
    else findRoot cwd abs roots
  | _ :: _ => none

def checkWorkspace (cwd : AbsPath) (workspacePath : String) : Option PolicyDecision :=
  let policy := engine.policy.workspaces
  if policy.allowedRoots.length = 0 then
    some (deny "workspace_no_allowlist"
      ("No workspace allowlist configured; path \"" ++ workspacePath ++ "\" denied by default")
      engine.hash)
  else
    let abs := cwd.resolve workspacePath
    (findRoot cwd abs policy.allowedRoots).bind fun
    | none =>
      some (deny "workspace_not_allowed"
        ("Path \"" ++ workspacePath ++ "\" is not within any allowed root") engine.hash)
    | some matchedRoot =>
      let allowed :=
        allow "workspace_allowed" ("Path \"" ++ workspacePath ++ "\" is within allowed roots")
          engine.hash
      match policy.maxPathDepth with
      | none => some allowed
      | some maxPathDepth =>
        if !maxPathDepth.truthy then some allowed
        -- the empty root counts as none
        else if matchedRoot = "" then some allowed
        else
          let relDepth := AbsPath.partCount (abs.chars.drop (cwd.resolve matchedRoot).chars.length)
          maxPathDepth.operand.bind fun limit =>
            if JsNumber.gt relDepth limit then
              maxPathDepth.literal.map fun text =>
                deny "workspace_path_too_deep"
                  ("Path \"" ++ workspacePath ++ "\" exceeds max depth " ++ text) engine.hash
            else some allowed

/-! ### Execution -/

/-- The condition on an optional field. -/
def holds (value : Option Json) : Bool := value.any Json.truthy

/-- The check of a limit, which neither a zero nor a missing number has to keep. -/
def limitDecisions (rule name unit : String) (actual : Option JsNumber) (limit : Option Json) :
    Option (List PolicyDecision) :=
  match actual, limit with
  | some actual, some limit =>
    if actual.truthy && limit.truthy then
      limit.operand.bind fun max =>
        if JsNumber.gt actual max then
          limit.literal.map fun text =>
            [deny rule (name ++ " " ++ actual.text ++ unit ++ " exceeds max " ++ text ++ unit)
              engine.hash]
        else some []
    else some []
  | _, _ => some []

/-- `!(commands && commands.length > 0 && !commands.includes(command))` -/
def permits (commands : Option Json) (command : String) : Option Bool :=
  match commands with
  | some (.arr items) => some (items.length = 0 || includes items command)
  | some (.str text) => some (text = "" || command.toList <:+: text.toList)
  | some (.obj fields) =>
    match (Json.obj fields).get? "length" with
    | none => some true
    -- what an object has under `includes` cannot be called
    | some length => length.operand.bind fun n => if JsNumber.gt n 0 then none else some true
  | _ => some true

def commandDecisions (command : Option String) : Option (List PolicyDecision) :=
  let policy := engine.policy.execution
  match command with
  | none => some []
  | some command =>
    if command = "" then some []
    else if !holds policy.shellAllowed then
      some [deny "execution_shell_denied" "Shell command execution is denied by policy" engine.hash]
    else
      (permits policy.allowedCommands command).map fun permitted =>
        if permitted then []
        else [deny "execution_command_denied"
          ("Shell command \"" ++ command ++ "\" is not allowed") engine.hash]

def checkExecution (params : ExecutionParams) : Option (List PolicyDecision) :=
  let policy := engine.policy.execution
  let network :=
    if params.networkRequired = some true ∧ !holds policy.networkAllowed then
      [deny "execution_network_denied" "Network egress is denied by policy" engine.hash]
    else []
  (engine.limitDecisions "execution_runtime_exceeded" "Runtime" "s" params.runtimeSeconds
    policy.maxRuntimeSeconds).bind fun runtime =>
  (engine.limitDecisions "execution_memory_exceeded" "Memory" "MB" params.memoryMb
    policy.maxMemoryMb).bind fun memory =>
  (engine.commandDecisions params.command).map fun command =>
    let decisions := network ++ runtime ++ memory ++ command
    if decisions.length > 0 then decisions
    else [allow "execution_allowed" "Execution parameters within policy limits" engine.hash]

end PolicyHolder

end KirkForge
