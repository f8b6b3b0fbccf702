import KirkForge.PluginHost.TrustInvariant
import KirkForge.Theory.JoinPath

/-!
# The commands of plugins

How the host runs the commands of tools, hooks and verifiers (`tool.rs`, `hook.rs`, `verifier.rs`
and `env.rs` of `crates/kirkforge-plugin-host`). What gates a command is the trust of its plugin;
its program is the command itself if that is absolute, and else what it leads to from the plugin
(`commandPaths`). A relative root is followed twice, by the child and by the path of its program.
-/

namespace KirkForge.PluginHost

open Plugin KirkForge.Path

/-- `root.join(command)` -/
def joinPath (root command : String) : String :=
  if command.toList.head? = some '/' ∨ root = "" then command
  else if root.toList.getLast? = some '/' then root ++ command
  else root ++ "/" ++ command

/-! ### Running a command -/

inductive SpawnOutcome
  /-- `ErrorKind::ExecutableFileBusy` -/
  | busy (message : String)
  | failed (message : String)
  | exited (code : Option Int) (stdout stderr : String)

/-- What is given to `Command`. -/
structure Spawn where
  program : String
  env : OrderedMap String String
  currentDir : String

/-- What the operating system answers. -/
structure CommandHost where
  cwd : AbsPath
  pathExists : String → Bool
  spawn : Spawn → (attempts : Nat) → SpawnOutcome

/-- `ToolError`, `HookError` and `VerifierError`. -/
inductive RunError
  | notFound (path : String)
  | trustViolation (required effective : TrustTier)
  | io (message : String)

/-- The message of an error of a `"tool"`, a `"hook"` or a `"verifier"`. -/
def RunError.text (kind : String) : RunError → String
  | notFound path => kind ++ " command not found: " ++ path
  | trustViolation required effective =>
    kind ++ " blocked: required trust '" ++ required.text ++ "' exceeds effective trust '" ++
      effective.text ++ "'"
  | io message => kind ++ " failed to execute: " ++ message

/-- The programs that were given to `Command`, and the result. -/
structure CommandRun (α : Type) where
  spawned : List Spawn
  result : Except RunError α

def CommandRun.map {α β : Type} (f : α → Except RunError β) (run : CommandRun α) : CommandRun β where
  spawned := run.spawned
  result := run.result.bind f

def DEFAULT_PATH : String := "/usr/local/bin:/usr/bin:/bin"

def buildPluginEnv (pluginRoot pluginName : String) (extra : List (String × String)) :
    OrderedMap String String :=
  ([("KIRKFORGE_PLUGIN_ROOT", pluginRoot), ("KIRKFORGE_PLUGIN_NAME", pluginName),
      ("PATH", DEFAULT_PATH)] ++ extra).foldl (fun env p => env.set p.1 p.2) ∅

/-- The loop around `Command`, with so many attempts left. -/
def attempt (host : CommandHost) (s : Spawn) (attempts : Nat) : (left : Nat) →
    List Spawn × SpawnOutcome
  | 0 => ([s], host.spawn s attempts)
  | left + 1 =>
    match host.spawn s attempts with
    | .busy _ =>
      let (spawned, outcome) := attempt host s (attempts + 1) left
      (s :: spawned, outcome)
    | outcome => ([s], outcome)

/-- What `execute` of a tool and `run` of a hook or a verifier have in common. -/
def runCommand (host : CommandHost) (required effective : TrustTier)
    (pluginRoot pluginName command : String) (extra : List (String × String)) :
    CommandRun (Option Int × String × String) :=
  if !effective.permits required then ⟨[], .error (.trustViolation required effective)⟩
  else
    let cmdPath := joinPath pluginRoot command
    if !host.pathExists cmdPath then ⟨[], .error (.notFound cmdPath)⟩
    else
      let env := buildPluginEnv pluginRoot pluginName extra
      let (spawned, outcome) := attempt host ⟨cmdPath, env, pluginRoot⟩ 0 3
      ⟨spawned, match outcome with
        | .busy message | .failed message => .error (.io message)
        | .exited code stdout stderr => .ok (code, stdout, stderr)⟩

/-- `format!("{:?}", code)` -/
def debugCode : Option Int → String
  | some code => "Some(" ++ toString code ++ ")"
  | none => "None"

/-! ### Tools, hooks and verifiers -/

structure PluginTool where
  name : String
  description : String
  schema : Json
  command : String
  pluginRoot : String
  pluginName : String
  effectiveTrust : TrustTier
  requiredTrust : TrustTier

namespace PluginTool

def fromCapability (cap : Capability) (pluginRoot pluginName : String)
    (effectiveTrust : TrustTier) : Option PluginTool :=
  match cap with
  | .tool name description schema command =>
    command.map fun command =>
      { name, description, schema, command, pluginRoot, pluginName, effectiveTrust
        requiredTrust := SandboxPolicy.requiredTier cap }
  | _ => none

/-- `args` is the text of the arguments as JSON. -/
def execute (host : CommandHost) (tool : PluginTool) (args : String) : CommandRun String :=
  (runCommand host tool.requiredTrust tool.effectiveTrust tool.pluginRoot tool.pluginName
    tool.command [("KIRKFORGE_TOOL_ARGS", args)]).map fun (code, stdout, stderr) =>
      if code = some 0 then .ok (trim stdout)
      else .error (.io (if trim stderr = "" then "tool exited with " ++ debugCode code
        else trim stderr))

end PluginTool

structure PluginHook where
  event : String
  command : String
  pluginRoot : String
  pluginName : String
  effectiveTrust : TrustTier
  requiredTrust : TrustTier

inductive HookVerdict
  | allow
  | deny
  deriving DecidableEq

namespace PluginHook

def fromCapability (cap : Capability) (pluginRoot pluginName : String)
    (effectiveTrust : TrustTier) : Option PluginHook :=
  match cap with
  | .hook event command =>
    some { event, command, pluginRoot, pluginName, effectiveTrust
           requiredTrust := SandboxPolicy.requiredTier cap }
  | _ => none

def run (host : CommandHost) (hook : PluginHook) (extraEnv : List (String × String)) :
    CommandRun HookVerdict :=
  (runCommand host hook.requiredTrust hook.effectiveTrust hook.pluginRoot hook.pluginName
    hook.command extraEnv).map fun (code, _, _) =>
      .ok (if code = some 2 then .deny else .allow)

end PluginHook

structure PluginVerifier where
  name : String
  command : String
  pluginRoot : String
  pluginName : String
  effectiveTrust : TrustTier
  requiredTrust : TrustTier

inductive VerifierVerdict
  | pass
  | fail (message : String)
  deriving DecidableEq

namespace PluginVerifier

def fromCapability (cap : Capability) (pluginRoot pluginName : String)
    (effectiveTrust : TrustTier) : Option PluginVerifier :=
  match cap with
  | .verifier name _ command =>
    command.map fun command =>
      { name, command, pluginRoot, pluginName, effectiveTrust
        requiredTrust := SandboxPolicy.requiredTier cap }
  | _ => none

def run (host : CommandHost) (verifier : PluginVerifier) (extraEnv : List (String × String)) :
    CommandRun VerifierVerdict :=
  (runCommand host verifier.requiredTrust verifier.effectiveTrust verifier.pluginRoot
    verifier.pluginName verifier.command extraEnv).map fun (code, _, stderr) =>
      .ok (if code = some 0 then .pass
        else .fail (if trim stderr = "" then "exited with " ++ debugCode code else trim stderr))

end PluginVerifier

/-! ### Where the programs are -/

/-- The command of a capability. -/
def command? : Capability → Option String
  | .skill .. => none
  | .tool _ _ _ command | .verifier _ _ command => command
  | .hook _ command => some command

/-- The programs that are started when a capability of a hosted plugin is used. -/
def spawnedFor (host : CommandHost) (hosted : HostedPlugin) (cap : Capability) (args : String)
    (extraEnv : List (String × String)) : List Spawn :=
  let root := hosted.plugin.root
  let name := hosted.plugin.manifest.name
  match cap with
  | .skill .. => []
  | .tool .. =>
    match PluginTool.fromCapability cap root name hosted.effectiveTrust with
    | some tool => (tool.execute host args).spawned
    | none => []
  | .hook .. =>
    match PluginHook.fromCapability cap root name hosted.effectiveTrust with
    | some hook => (hook.run host extraEnv).spawned
    | none => []
  | .verifier .. =>
    match PluginVerifier.fromCapability cap root name hosted.effectiveTrust with
    | some verifier => (verifier.run host extraEnv).spawned
    | none => []

/-- The file that is executed: the child has changed into its directory when the path of its program
is followed. -/
def Spawn.executed (host : CommandHost) (s : Spawn) : AbsPath :=
  (host.cwd.resolve s.currentDir).resolve s.program

/-- What a process executes lies inside the plugin. -/
def InPlugin (host : CommandHost) (hosted : HostedPlugin) (s : Spawn) : Prop :=
  AbsPath.Contains (host.cwd.resolve hosted.plugin.root) (s.executed host)

/-- The way from the directory of a plugin to the program of a relative command. -/
def wayFrom (root command : String) : String :=
  if root.toList.head? = some '/' then command else joinPath root command

/-- An absolute command lies below the directory; the way to a relative one comes back by the names
of all the directories that it leaves. -/
def StaysInside (dir : AbsPath) (root command : String) : Prop :=
  if command.toList.head? = some '/' then dir.segments <+: normalSegments command.toList false
  else dir.segments.drop (dir.segments.length - ups (wayFrom root command)) <+:
    names (wayFrom root command)

instance (dir : AbsPath) (root command : String) : Decidable (StaysInside dir root command) :=
  inferInstanceAs (Decidable (ite _ _ _))

variable {host : CommandHost} {hosted : HostedPlugin} {cap : Capability} {s : Spawn}

theorem resolve_empty (cwd : AbsPath) : cwd.resolve "" = cwd := by
  apply AbsPath.eq_of_segments_eq
  rw [AbsPath.segments_resolve_relative (by decide)]
  simp [AbsPath.follow, addSegment]

theorem segments_resolve_joinPath (cwd : AbsPath) (root : String) {command : String}
    (h : command.toList.head? ≠ some '/') :
    (cwd.resolve (joinPath root command)).segments = (cwd.resolve root).follow command := by
  rw [joinPath]
  by_cases hroot : root = ""
  · rw [if_pos (.inr hroot), hroot, resolve_empty, AbsPath.segments_resolve_relative h]
  · rw [if_neg (not_or.mpr ⟨h, hroot⟩)]
    split
    · next hlast =>
      -- the slash at the end of the root adds an empty segment to it
      obtain ⟨front, hfront⟩ := List.getLast?_eq_some_iff.mp hlast
      have hhead : (front ++ '/' :: command.toList).head? = (front ++ ['/']).head? := by
        cases front <;> rfl
      rw [AbsPath.follow, AbsPath.segments_resolve, AbsPath.segments_resolve, String.toList_append,
        hfront, List.append_assoc, List.singleton_append, hhead, List.splitOn_append_cons_self,
        List.splitOn_append_cons_self, List.foldl_append, List.foldl_append, List.reverse_reverse]
      rfl
    · exact AbsPath.segments_resolve_concat cwd command hroot

theorem resolve_absolute_self (cwd : AbsPath) {root : String} (h : root.toList.head? = some '/') :
    (cwd.resolve root).resolve root = cwd.resolve root := by
  apply AbsPath.eq_of_segments_eq
  rw [AbsPath.segments_resolve_absolute h, AbsPath.segments_resolve_absolute h]

theorem joinPath_relative {root command : String} (hroot : root.toList.head? ≠ some '/')
    (h : command.toList.head? ≠ some '/') : (joinPath root command).toList.head? ≠ some '/' := by
  rw [joinPath]
  by_cases hempty : root = ""
  · rwa [if_pos (.inr hempty)]
  · have hne : root.toList ≠ [] := mt String.toList_eq_nil_iff.mp hempty
    have hhead (back : String) : (root ++ back).toList.head? = root.toList.head? := by
      rw [String.toList_append, List.head?_append_of_ne_nil _ hne]
    rw [if_neg (not_or.mpr ⟨h, hempty⟩)]
    split
    · rwa [hhead]
    · rwa [String.append_assoc, hhead]

theorem segments_way (cwd : AbsPath) (root : String) {command : String}
    (h : command.toList.head? ≠ some '/') :
    ((cwd.resolve root).resolve (joinPath root command)).segments =
      (cwd.resolve root).follow (wayFrom root command) := by
  rw [wayFrom]
  split
  · next hroot => rw [segments_resolve_joinPath _ _ h, resolve_absolute_self _ hroot]
  · next hroot => rw [AbsPath.segments_resolve_relative (joinPath_relative hroot h)]

theorem inPlugin_iff (host : CommandHost) (hosted : HostedPlugin) {command : String}
    (hprogram : s.program = joinPath hosted.plugin.root command)
    (hdirectory : s.currentDir = hosted.plugin.root) : InPlugin host hosted s ↔
      StaysInside (host.cwd.resolve hosted.plugin.root) hosted.plugin.root command := by
  rw [InPlugin, AbsPath.Contains, Spawn.executed, hprogram, hdirectory, StaysInside]
  split
  · next h => rw [joinPath, if_pos (.inl h), AbsPath.segments_resolve_absolute h]
  · next h => rw [segments_way _ _ h, AbsPath.prefix_follow_iff]

/-- A relative command whose way never leads above the directory stays in the plugin. -/
theorem staysInside_of_no_ups {dir : AbsPath} {root command : String}
    (h : command.toList.head? ≠ some '/') (hups : ups (wayFrom root command) = 0) :
    StaysInside dir root command := by
  rw [StaysInside, if_neg h, hups, Nat.sub_zero, List.drop_length]
  exact List.nil_prefix

/-- Every attempt is made with the same program. -/
theorem eq_of_mem_attempt {s' : Spawn} {attempts left : Nat}
    (h : s' ∈ (attempt host s attempts left).1) : s' = s := by
  induction left generalizing attempts with
  | zero => exact List.mem_singleton.mp h
  | succ left ih =>
    rw [attempt] at h
    cases hspawn : host.spawn s attempts with
    | busy message =>
      rw [hspawn] at h
      obtain h | h := List.mem_cons.mp h
      · exact h
      · exact ih h
    | failed message | exited code stdout stderr =>
      rw [hspawn] at h
      exact List.mem_singleton.mp h

/-- A host on which every path exists and every program succeeds. -/
def permissiveHost : CommandHost where
  cwd := .root
  pathExists _ := true
  spawn _ _ := .exited (some 0) "" ""

/-- A plugin of the directory `/plugins/p`, with the trust to run shell commands. -/
def shellPlugin (caps : List Capability) : HostedPlugin where
  plugin :=
    { manifest := ⟨"p", "1.0.0", "", .shell, caps, none, []⟩, root := "/plugins/p"
      skillPrompts := ∅, hooks := [], verifiers := [], tools := caps }
  effectiveTrust := .shell
  rejection := none

/-- What is started for this capability, if a plugin has no other, lies in the plugin. -/
def ProgramsInside (cap : Capability) : Prop :=
  ∀ s ∈ spawnedFor permissiveHost (shellPlugin [cap]) cap "null" [],
    InPlugin permissiveHost (shellPlugin [cap]) s

theorem not_programsInside {cap : Capability} (command : String) {s : Spawn}
    (hs : s ∈ spawnedFor permissiveHost (shellPlugin [cap]) cap "null" [])
    (hprogram : s.program = joinPath "/plugins/p" command) (hdirectory : s.currentDir = "/plugins/p")
    (hnot : ¬StaysInside (AbsPath.root.resolve "/plugins/p") "/plugins/p" command) :
    ¬ProgramsInside cap := by
  have houtside : ¬InPlugin permissiveHost (shellPlugin [cap]) s :=
    mt (inPlugin_iff permissiveHost (shellPlugin [cap]) hprogram hdirectory).mp hnot
  intro hall
  exact houtside (hall s hs)

/-- A tool, a hook and a verifier whose programs are not in the plugin. -/
theorem programs_outside :
    ¬ProgramsInside (.tool "t" "" .null (some "/bin/sh")) ∧
      ¬ProgramsInside (.hook "e" "../../bin/sh") ∧
      ¬ProgramsInside (.verifier "v" 0 (some "a/../../b")) := by
  refine ⟨?_, ?_, ?_⟩
  · exact not_programsInside "/bin/sh" List.mem_cons_self rfl rfl (by decide)
  · exact not_programsInside "../../bin/sh" List.mem_cons_self rfl rfl (by decide)
  · exact not_programsInside "a/../../b" List.mem_cons_self rfl rfl (by decide)

/-- What is known of a program that is started. -/
structure Started (host : CommandHost) (required effective : TrustTier) (root command : String)
    (s : Spawn) : Prop where
  permitted : effective.permits required = true
  program : s.program = joinPath root command
  directory : s.currentDir = root
  present : host.pathExists s.program = true

theorem started_of_mem {required effective : TrustTier} {root name command : String}
    {extra : List (String × String)}
    (h : s ∈ (runCommand host required effective root name command extra).spawned) :
    Started host required effective root command s := by
  rw [runCommand] at h
  split at h
  · cases h
  · next hpermits =>
    dsimp only at h
    split at h
    · cases h
    · next hexists =>
      obtain rfl := eq_of_mem_attempt h
      exact ⟨by simpa using hpermits, rfl, rfl, by simpa using hexists⟩

theorem started_of_mem_spawnedFor {args : String} {extraEnv : List (String × String)}
    (h : s ∈ spawnedFor host hosted cap args extraEnv) :
    ∃ command, command? cap = some command ∧ Started host (SandboxPolicy.requiredTier cap)
      hosted.effectiveTrust hosted.plugin.root command s := by
  cases cap with
  | skill => cases h
  | hook event command => exact ⟨command, rfl, started_of_mem h⟩
  | tool name description schema command =>
    cases command with
    | none => cases h
    | some command => exact ⟨command, rfl, started_of_mem h⟩
  | verifier name priority command =>
    cases command with
    | none => cases h
    | some command => exact ⟨command, rfl, started_of_mem h⟩

/-- The programs of the tools, hooks and verifiers of a plugin. -/
structure CommandPaths (host : CommandHost) (hosted : HostedPlugin) : Prop where
  gated : ∀ cap args extraEnv, ∀ s ∈ spawnedFor host hosted cap args extraEnv,
    hosted.effectiveTrust.permits (SandboxPolicy.requiredTier cap) = true ∧
      host.pathExists s.program = true
  program : ∀ cap args extraEnv, ∀ s ∈ spawnedFor host hosted cap args extraEnv, ∃ command,
    command? cap = some command ∧ s.program = joinPath hosted.plugin.root command ∧
      (InPlugin host hosted s ↔
        StaysInside (host.cwd.resolve hosted.plugin.root) hosted.plugin.root command) ∧
      (command.toList.head? ≠ some '/' → ups (wayFrom hosted.plugin.root command) = 0 →
        InPlugin host hosted s)

theorem commandPaths (host : CommandHost) (hosted : HostedPlugin) : CommandPaths host hosted := by
  constructor
  · intro cap args extraEnv s hs
    obtain ⟨command, -, hstarted⟩ := started_of_mem_spawnedFor hs
    exact ⟨hstarted.permitted, hstarted.present⟩
  · intro cap args extraEnv s hs
    obtain ⟨command, hcommand, hstarted⟩ := started_of_mem_spawnedFor hs
    have hinside := inPlugin_iff host hosted hstarted.program hstarted.directory
    refine ⟨command, hcommand, hstarted.program, hinside, ?_⟩
    intro hrelative hups
    exact hinside.mpr (staysInside_of_no_ups hrelative hups)

/-- Seen from `/work` the plugin is `/plugins/p`, and its program is `/plugins/plugins/p/run.sh`. -/
example : ¬StaysInside (AbsPath.root.resolve "/plugins/p") "../plugins/p" "run.sh" := by decide

end KirkForge.PluginHost
