import KirkForge.Plugin.Verification

/-!
# The plugin registry

`crates/kirkforge-plugin-host/src/lib.rs` and `sandbox.rs`. A directory of plugins is given by what
`read_dir` lists of it. A plugin is pushed on `plugins` and its capabilities are indexed by the
place it has there; nothing is ever taken out.
-/

namespace KirkForge.PluginHost

open Plugin

namespace SandboxPolicy

/-- The least tier that may use a capability. -/
def requiredTier : Capability → TrustTier
  | .skill .. => .readOnly
  | .tool .. => .shell
  | .hook .. => .shell
  | .verifier .. => .readOnly

def permits (tier : TrustTier) (cap : Capability) : Bool := tier.permits (requiredTier cap)

def filter (tier : TrustTier) (caps : List Capability) : List Capability :=
  caps.filter (permits tier)

end SandboxPolicy

structure TrustPolicy where
  max : TrustTier
  rejectOnExcess : Bool
  verification : PluginVerificationPolicy

namespace TrustPolicy

/-- A policy that allows up to `max` and rejects anything beyond. -/
def upTo (max : TrustTier) : TrustPolicy := ⟨max, true, .allowUnsigned⟩

instance : Inhabited TrustPolicy := ⟨upTo .readOnly⟩

def withVerification (policy : TrustPolicy) (verification : PluginVerificationPolicy) :
    TrustPolicy :=
  { policy with verification }

end TrustPolicy

structure HostedPlugin where
  plugin : LoadedPlugin
  effectiveTrust : TrustTier
  rejection : Option String

def HostedPlugin.isActive (hosted : HostedPlugin) : Bool := hosted.rejection.isNone

/-- The plugin without the capabilities that need more than `tier`. -/
def filterCapabilitiesByTier (plugin : LoadedPlugin) (tier : TrustTier) : LoadedPlugin :=
  let allowed := SandboxPolicy.filter tier plugin.manifest.capabilities
  { plugin with
    manifest := { plugin.manifest with capabilities := allowed }
    skillPrompts := plugin.skillPrompts.retain fun trigger =>
      allowed.any fun
        | .skill t .. => t = trigger
        | _ => false
    hooks := plugin.hooks.filter (· ∈ allowed)
    verifiers := plugin.verifiers.filter (· ∈ allowed)
    tools := plugin.tools.filter (· ∈ allowed) }

def applyPolicy (plugin : LoadedPlugin) (policy : TrustPolicy) : HostedPlugin :=
  if policy.rejectOnExcess && !policy.max.permits plugin.manifest.trust then
    { plugin
      effectiveTrust := plugin.manifest.trust
      rejection := some ("trust tier '" ++ plugin.manifest.trust.text ++
        "' exceeds host maximum '" ++ policy.max.text ++ "'") }
  else
    let effective :=
      if policy.max.permits plugin.manifest.trust then plugin.manifest.trust else policy.max
    { plugin := filterCapabilitiesByTier plugin effective
      effectiveTrust := effective
      rejection := none }

structure PluginRegistry where
  plugins : List HostedPlugin
  skillsByTrigger : OrderedMap String Nat
  toolsByName : OrderedMap String Nat
  hooksByEvent : OrderedMap String (List Nat)
  verifiersByName : OrderedMap String Nat

/-- A directory that is given to `load_from_dir`. -/
structure PluginsDir where
  path : String
  present : Bool
  /-- What `read_dir` gives. An entry that cannot be read is passed over. -/
  entries : Except String (List (Except String PluginEntry))

namespace PluginRegistry

def new : PluginRegistry := ⟨[], ∅, ∅, ∅, ∅⟩

def activePlugins (reg : PluginRegistry) : List HostedPlugin := reg.plugins.filter (·.isActive)

def activeCount (reg : PluginRegistry) : Nat := reg.activePlugins.length

/-- The body of the loop of `index`. -/
def indexCapability (idx : Nat) (reg : PluginRegistry) : Capability → PluginRegistry
  | .skill trigger .. => { reg with skillsByTrigger := reg.skillsByTrigger.set trigger idx }
  | .tool name .. => { reg with toolsByName := reg.toolsByName.set name idx }
  | .hook event _ =>
    { reg with
      hooksByEvent :=
        reg.hooksByEvent.set event ((reg.hooksByEvent.get? event).getD [] ++ [idx]) }
  | .verifier name .. => { reg with verifiersByName := reg.verifiersByName.set name idx }

def index (hosted : HostedPlugin) (reg : PluginRegistry) : PluginRegistry :=
  hosted.plugin.manifest.capabilities.foldl (indexCapability reg.plugins.length)
    { reg with plugins := reg.plugins ++ [hosted] }

/-- `path.file_name()` begins with a dot. -/
def isHidden (entry : PluginEntry) : Bool :=
  match entry.fileName with
  | some name => name.toList.head? = some '.'
  | none => false

/-- The body of the loop of `load_from_dir`, on the registry and the warnings. -/
def loadEntry (env : PluginEnv) (policy : TrustPolicy) (state : PluginRegistry × List String)
    (entry : PluginEntry) : PluginRegistry × List String :=
  let (reg, warnings) := state
  if !entry.isDir then state
  else if isHidden entry then state
  else match loadWithVerification env entry policy.verification with
    | .ok plugin =>
      let hosted := applyPolicy plugin policy
      match hosted.rejection with
      | some reason => (reg, warnings ++ [hosted.plugin.manifest.name ++ ": " ++ reason])
      | none => (reg.index hosted, warnings)
    | .error e => (reg, warnings ++ [entry.path ++ ": failed to load plugin: " ++ e.text])

/-- The registry after the call, and what the call returns. -/
def loadFromDir (env : PluginEnv) (dir : PluginsDir) (policy : TrustPolicy)
    (reg : PluginRegistry) : PluginRegistry × Except String (List String) :=
  if !dir.present then (reg, .ok [])
  else match dir.entries with
    | .error e => (reg, .error ("cannot read plugins directory " ++ dir.path ++ ": " ++ e))
    | .ok entries =>
      let (reg, warnings) := (entries.filterMap Except.toOption).foldl (loadEntry env policy)
        (reg, [])
      (reg, .ok warnings)

/-! ### Lookups -/

/-- The plugin at a place, if it is active. -/
def activeAt (reg : PluginRegistry) (idx : Nat) : Option HostedPlugin :=
  reg.plugins[idx]?.filter (·.isActive)

def skillByTrigger (trigger : String) (reg : PluginRegistry) :
    Option (PluginManifest × LoadedPlugin) := do
  let idx ← reg.skillsByTrigger.get? trigger
  let hosted ← reg.activeAt idx
  return (hosted.plugin.manifest, hosted.plugin)

def skillTriggers (reg : PluginRegistry) : List String := reg.skillsByTrigger.keys

def toolByName (name : String) (reg : PluginRegistry) : Option HostedPlugin :=
  (reg.toolsByName.get? name).bind reg.activeAt

def hooksForEvent (event : String) (reg : PluginRegistry) : List HostedPlugin :=
  ((reg.hooksByEvent.get? event).getD []).filterMap reg.activeAt

def verifierByName (name : String) (reg : PluginRegistry) : Option HostedPlugin :=
  (reg.verifiersByName.get? name).bind reg.activeAt

end PluginRegistry

end KirkForge.PluginHost
