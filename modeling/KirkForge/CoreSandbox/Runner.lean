import KirkForge.CoreSandbox.Constraints
import KirkForge.Theory.OrderedMap
import KirkForge.Theory.Outcome

/-!
# The sandboxed runner

`runSandboxed` (`core-sandbox/src/runner.ts`) up to the process that it spawns, with
`validateConstraints` and `createSandboxContext` of `core-sandbox/src/index.ts` and
`isEnterpriseMode` of `core-enterprise/src/index.ts`. The environment of the parent process is a
parameter of each.
-/

namespace KirkForge

abbrev ProcessEnv := OrderedMap String String

def isEnterpriseMode (env : ProcessEnv) : Bool :=
  match env.get? "KIRKFORGE_ENTERPRISE_MODE" with
  | some val => val = "1" || val = "true" || val = "yes"
  | none => false

/-! ### Constraints -/

structure SandboxError where
  code : String
  message : String
  deriving DecidableEq

/-- `{ ...DEFAULT_CONSTRAINTS, ...constraints }` -/
def withDefaults (c : SandboxConstraints) : RequiredConstraints where
  maxTimeMs := c.maxTimeMs.getD DEFAULT_CONSTRAINTS.maxTimeMs
  maxMemoryMb := c.maxMemoryMb.getD DEFAULT_CONSTRAINTS.maxMemoryMb
  maxCpuMs := c.maxCpuMs.getD DEFAULT_CONSTRAINTS.maxCpuMs
  maxProcesses := c.maxProcesses.getD DEFAULT_CONSTRAINTS.maxProcesses
  networkAllowed := c.networkAllowed.getD DEFAULT_CONSTRAINTS.networkAllowed
  networkAllowlist := c.networkAllowlist.getD DEFAULT_CONSTRAINTS.networkAllowlist
  networkDenylist := c.networkDenylist.getD DEFAULT_CONSTRAINTS.networkDenylist
  shellAllowed := c.shellAllowed.getD DEFAULT_CONSTRAINTS.shellAllowed
  allowedCommands := c.allowedCommands.getD DEFAULT_CONSTRAINTS.allowedCommands
  allowedReadPaths := c.allowedReadPaths.getD DEFAULT_CONSTRAINTS.allowedReadPaths
  allowedWritePaths := c.allowedWritePaths.getD DEFAULT_CONSTRAINTS.allowedWritePaths
  redactSecrets := c.redactSecrets.getD DEFAULT_CONSTRAINTS.redactSecrets
  maxOutputBytes := c.maxOutputBytes.getD DEFAULT_CONSTRAINTS.maxOutputBytes

def invalidConstraints (message : String) : Except SandboxError RequiredConstraints :=
  .error { code := "INVALID_CONSTRAINTS", message }

def validateConstraints (constraints : SandboxConstraints) :
    Except SandboxError RequiredConstraints :=
  let c := withDefaults constraints
  if JsNumber.gt 1000 c.maxTimeMs then
    invalidConstraints ("maxTimeMs must be at least 1000ms, got " ++ c.maxTimeMs.text)
  else if JsNumber.gt 16 c.maxMemoryMb then
    invalidConstraints ("maxMemoryMb must be at least 16MB, got " ++ c.maxMemoryMb.text)
  else if JsNumber.gt 1000 c.maxCpuMs then
    invalidConstraints ("maxCpuMs must be at least 1000ms, got " ++ c.maxCpuMs.text)
  else if JsNumber.gt 0 c.maxProcesses then
    invalidConstraints ("maxProcesses must be >= 0, got " ++ c.maxProcesses.text)
  else if !c.networkAllowed && 0 < c.networkAllowlist.length then
    invalidConstraints ("networkAllowlist is set but networkAllowed is false. " ++
      "Set networkAllowed=true to use allowlist.")
  else if !c.shellAllowed && 0 < c.allowedCommands.length then
    invalidConstraints ("allowedCommands is set but shellAllowed is false. " ++
      "Set shellAllowed=true to allow commands.")
  else
    match c.networkAllowlist.filter (· ∈ c.networkDenylist) with
    | [] => .ok c
    | conflicts =>
      invalidConstraints ("networkAllowlist and networkDenylist overlap: " ++
        Text.join ", " conflicts)

/-! ### The configuration of a run -/

structure SandboxContext where
  tool : String
  args : List String
  tenantId : String
  actorId : String
  constraints : RequiredConstraints

inductive ViolationType
  | time | memory | network | filesystem | process | outputSize | command | secret
  deriving DecidableEq, Repr

structure SandboxViolation where
  type : ViolationType
  message : String
  target : Option String := none
  deriving DecidableEq

structure SandboxExecutionError where
  message : String
  violations : List SandboxViolation := []
  deriving DecidableEq

structure SandboxRunConfig where
  command : String
  args : List String := []
  cwd : Option String := none
  env : ProcessEnv := ∅
  inheritParentEnv : Bool := false
  constraints : SandboxConstraints := {}
  tenantId : Option String := none
  actorId : Option String := none
  skipArgPathScan : Bool := false
  beforeHook : Option (SandboxContext → Except SandboxError Unit) := none

def createSandboxContext (config : SandboxRunConfig) : Except SandboxError SandboxContext :=
  (validateConstraints config.constraints).bind fun constraints =>
    let context : SandboxContext :=
      { tool := config.command
        args := config.args
        tenantId := config.tenantId.getD ""
        actorId := config.actorId.getD ""
        constraints }
    match config.beforeHook with
    | some beforeHook => (beforeHook context).map fun _ => context
    | none => .ok context

/-! ### Scans -/

def scanArgsForPathViolations (args : List String) (constraints : RequiredConstraints) :
    List SandboxViolation :=
  args.filterMap fun arg =>
    if Text.startsWith arg "/" || Text.startsWith arg "./" || Text.startsWith arg ".." then
      if !isReadPathAllowed arg constraints && !isWritePathAllowed arg constraints then
        some
          { type := .filesystem
            message := "Argument path \"" ++ arg ++ "\" is outside allowed read/write roots"
            target := some arg }
      else none
    else none

/-- `/w/i`, or `/w.?v/i`. -/
inductive NamePattern
  | word (w : String)
  | words (w v : String)

/-- The rest after the characters of `w`, in any case. -/
def dropWord : List Char → List Char → Option (List Char)
  | [], cs => some cs
  | _ :: _, [] => none
  | a :: w, c :: cs => if c.toLower = a then dropWord w cs else none

/-- What `.` matches: one code unit that does not end a line. -/
def isAnyUnit (c : Char) : Bool := c.toNat < 0x10000 && c.toNat ∉ [0x0A, 0x0D, 0x2028, 0x2029]

namespace NamePattern

def matchesAt (cs : List Char) : NamePattern → Bool
  | word w => (dropWord w.toList cs).isSome
  | words w v =>
    match dropWord w.toList cs with
    | none => false
    | some rest =>
      (dropWord v.toList rest).isSome ||
        match rest with
        | [] => false
        | c :: rest => isAnyUnit c && (dropWord v.toList rest).isSome

def test (p : NamePattern) (name : String) : Bool := name.toList.tails.any fun cs => p.matchesAt cs

end NamePattern

def sensitivePatterns : List NamePattern :=
  [.word "password", .word "secret", .word "token", .words "api" "key", .words "private" "key",
    .word "auth"]

def scanEnvForSecrets (env : ProcessEnv) : List SandboxViolation :=
  env.entries.filterMap fun e =>
    if sensitivePatterns.any (fun p => p.test e.1) && e.2 ≠ "" then
      some
        { type := .secret
          message := "Environment variable \"" ++ e.1 ++ "\" may contain sensitive data"
          target := some e.1 }
    else none

/-! ### The run -/

/-- The host: the path of the interpreter and which files exist. -/
structure RunnerHost where
  execPath : String
  existsSync : String → Bool

/-- `path.join(dir, name)` -/
def pathJoin (dir name : String) : String :=
  Path.normalize (Text.join "/" ([dir, name].filter (· ≠ "")))

def resolveCommand (host : RunnerHost) (parent : ProcessEnv) (command : String) : String :=
  if command = "node" then host.execPath
  else if Text.startsWith command "/" then command
  else
    let candidates := (Text.split ':' ((parent.get? "PATH").getD "")).map (pathJoin · command)
    (candidates.find? host.existsSync).getD command

/-- `{ ...parent, ...env }` -/
def spread (parent env : ProcessEnv) : ProcessEnv :=
  env.entries.foldl (fun m e => m.set e.1 e.2) parent

/-- What `spawn` is called with. -/
structure Spawn where
  command : String
  args : List String
  cwd : Option String
  env : ProcessEnv

def unsafeHostSandbox (parent : ProcessEnv) : Bool :=
  parent.get? "ALLOW_UNSAFE_HOST_SANDBOX" = some "1"

/-- `runSandboxed` up to the call of `spawn`. -/
def runSandboxed (host : RunnerHost) (parent : ProcessEnv) (config : SandboxRunConfig) :
    Except SandboxExecutionError Spawn :=
  match validateConstraints config.constraints with
  | .error e => .error { message := "Invalid sandbox constraints: " ++ e.message }
  | .ok constraints =>
    let isEnterprise := isEnterpriseMode parent
    let unsafeHost := unsafeHostSandbox parent
    if isEnterprise && !unsafeHost then
      .error
        { message := "Enterprise mode requires container isolation. Use runDockerSandboxed() " ++
            "or set ALLOW_UNSAFE_HOST_SANDBOX=1 (not recommended for untrusted code)."
          violations :=
            [{ type := .command
               message := "Bare-host sandbox denied in enterprise mode"
               target := some config.command }] }
    else if constraints.shellAllowed && !isCommandAllowed config.command constraints then
      .error
        { message := "Command \"" ++ config.command ++ "\" is not in the allowed list: [" ++
            Text.join ", " constraints.allowedCommands ++ "]"
          violations :=
            [{ type := .command
               message := "Command not allowed: " ++ config.command
               target := some config.command }] }
    else if !constraints.shellAllowed then
      .error
        { message := "Shell execution is not allowed by sandbox constraints"
          violations :=
            [{ type := .command
               message := "Shell execution denied by policy"
               target := some config.command }] }
    else
      let pathViolations :=
        if config.skipArgPathScan then [] else scanArgsForPathViolations config.args constraints
      if 0 < pathViolations.length then
        .error
          { message := "Sandbox path violations detected: " ++
              Text.join "; " (pathViolations.map (·.message))
            violations := pathViolations }
      else
        let inheritParent := config.inheritParentEnv || unsafeHost
        let envViolations := scanEnvForSecrets config.env
        if 0 < envViolations.length && (isEnterprise || !unsafeHost) then
          .error
            { message := "Sandbox env violations: sensitive env vars detected: " ++
                Text.join ", " (envViolations.filterMap (·.target)) ++
                ". Remove them or set ALLOW_UNSAFE_HOST_SANDBOX=1 " ++
                "(not recommended for untrusted code)."
              violations := envViolations }
        else
          match createSandboxContext config with
          | .error e => .error { message := "Sandbox context creation failed: " ++ e.message }
          | .ok _ => .ok
              { command :=
                  if inheritParent then config.command
                  else resolveCommand host parent config.command
                args := config.args
                cwd := config.cwd
                env := if inheritParent then spread parent config.env else spread ∅ config.env }

/-! ### Which runs are started -/

variable {host : RunnerHost} {parent : ProcessEnv} {config : SandboxRunConfig}

/-- All checks pass but those of the arguments. -/
structure Admitted (parent : ProcessEnv) (config : SandboxRunConfig) (c : RequiredConstraints) :
    Prop where
  valid : validateConstraints config.constraints = .ok c
  gate : isEnterpriseMode parent = true → unsafeHostSandbox parent = true
  command : isCommandAllowed config.command c = true
  secrets : scanEnvForSecrets config.env = [] ∨
    isEnterpriseMode parent = false ∧ unsafeHostSandbox parent = true
  context : ∃ context, createSandboxContext config = .ok context

/-- No argument is found to violate the constraints, if the arguments are looked at. -/
def ArgsPass (config : SandboxRunConfig) (c : RequiredConstraints) : Prop :=
  config.skipArgPathScan = true ∨ scanArgsForPathViolations config.args c = []

/-- The process of a run that is started. -/
def spawnOf (host : RunnerHost) (parent : ProcessEnv) (config : SandboxRunConfig) : Spawn :=
  let inheritParent := config.inheritParentEnv || unsafeHostSandbox parent
  { command := if inheritParent then config.command else resolveCommand host parent config.command
    args := config.args
    cwd := config.cwd
    env := if inheritParent then spread parent config.env else spread ∅ config.env }

theorem argsPass_iff {c : RequiredConstraints} : ArgsPass config c ↔
    ¬0 < (if config.skipArgPathScan then []
      else scanArgsForPathViolations config.args c).length := by
  cases h : config.skipArgPathScan <;> simp [ArgsPass, h]

theorem secrets_iff {violations : List SandboxViolation} {isEnterprise unsafeHost : Bool} :
    (violations = [] ∨ isEnterprise = false ∧ unsafeHost = true) ↔
      ¬(decide (0 < violations.length) && (isEnterprise || !unsafeHost)) = true := by
  cases isEnterprise <;> cases unsafeHost <;> simp

/-- A run is started if all checks pass. -/
theorem runSandboxed_eq_ok_iff {spawn : Spawn} : runSandboxed host parent config = .ok spawn ↔
    (∃ c, Admitted parent config c ∧ ArgsPass config c) ∧ spawn = spawnOf host parent config := by
  rw [runSandboxed]
  cases hvalid : validateConstraints config.constraints with
  | error e =>
    refine iff_of_false nofun ?_
    rintro ⟨⟨c, h, -⟩, -⟩
    exact nomatch hvalid.symm.trans h.valid
  | ok c =>
    simp only [ExceptRules.ite_error_eq_ok]
    constructor
    · rintro ⟨hgate, hcommand, hshell, hargs, hsecrets, h⟩
      have hallowed : isCommandAllowed config.command c = true := by
        rw [Bool.not_eq_true', Bool.not_eq_false] at hshell
        simpa [hshell] using hcommand
      cases hcontext : createSandboxContext config with
      | error e =>
        rw [hcontext] at h
        cases h
      | ok context =>
        rw [hcontext] at h
        refine ⟨⟨c, ⟨hvalid, ?_, hallowed, secrets_iff.mpr hsecrets, context, hcontext⟩,
          argsPass_iff.mpr hargs⟩, (Except.ok.inj h).symm⟩
        simpa using hgate
    · rintro ⟨⟨c', h, hargs⟩, rfl⟩
      obtain rfl := Except.ok.inj (hvalid.symm.trans h.valid)
      obtain ⟨context, hcontext⟩ := h.context
      have hshell := (isCommandAllowed_iff.mp h.command).1
      refine ⟨?_, ?_, ?_, argsPass_iff.mp hargs, ?_, ?_⟩
      · simpa using h.gate
      · simp [h.command]
      · simp [hshell]
      · exact secrets_iff.mp h.secrets
      · rw [hcontext]
        rfl

end KirkForge
