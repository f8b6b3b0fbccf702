import KirkForge.PluginHost.Commands

/-!
# Hooks and tools of a registry

`hooks_for_event` (`lib.rs`) and the toolsets over registries (`toolset.rs`). An event is filed with
the place of a plugin once for each hook, so the lookup gives the plugin as often
(`listsEachOnce_iff`). The lookups of a toolset agree with each other, whatever its nesting
(`toolset_coherent`).
-/

namespace KirkForge.PluginHost

open Plugin References

variable {env : PluginEnv} {reg : PluginRegistry} {hosted : HostedPlugin} {event : String}

/-! ### Hooks -/

def isHookFor (event : String) (cap : Capability) : Bool := cap.kind = .hook && cap.key = event

/-- How many hooks a plugin declares for an event. -/
def hookCount (event : String) (hosted : HostedPlugin) : Nat :=
  hosted.plugin.manifest.capabilities.countP (isHookFor event)

/-- The lookup gives the active plugins that declare a hook for the event, in the order of the
loads, each of them once. -/
def ListsEachOnce (reg : PluginRegistry) (event : String) : Prop :=
  reg.hooksForEvent event = reg.activePlugins.filter fun hosted => 1 ≤ hookCount event hosted

namespace PluginRegistry

/-- The places that are filed under an event. -/
def hooksAt (reg : PluginRegistry) (event : String) : List Nat :=
  (reg.hooksByEvent.get? event).getD []

theorem hooksAt_indexCapability (idx : Nat) (cap : Capability) :
    (reg.indexCapability idx cap).hooksAt event =
      reg.hooksAt event ++ if isHookFor event cap then [idx] else [] := by
  cases cap with
  | skill | tool | verifier => exact (List.append_nil _).symm
  | hook e command =>
    rw [indexCapability, hooksAt, OrderedMap.get?_set]
    by_cases he : e = event
    · subst he
      simp [isHookFor, hooksAt, Capability.kind, Capability.key]
    · simp [isHookFor, hooksAt, Capability.kind, Capability.key, he]

theorem hooksAt_foldl (idx : Nat) (caps : List Capability) :
    (caps.foldl (indexCapability idx) reg).hooksAt event =
      reg.hooksAt event ++ List.replicate (caps.countP (isHookFor event)) idx := by
  induction caps generalizing reg with
  | nil => exact (List.append_nil _).symm
  | cons cap caps ih =>
    rw [List.foldl_cons, ih, hooksAt_indexCapability, List.countP_cons, List.append_assoc]
    split
    · rw [List.replicate_succ, List.singleton_append]
    · rfl

theorem activeAt_index {idx : Nat} (h : idx < reg.plugins.length) :
    (reg.index hosted).activeAt idx = reg.activeAt idx := by
  rw [activeAt, activeAt, index_plugins, List.getElem?_append_left h]

theorem activeAt_index_length (hactive : hosted.isActive = true) :
    (reg.index hosted).activeAt reg.plugins.length = some hosted := by
  rw [activeAt, index_plugins, List.getElem?_concat_length]
  exact if_pos hactive

/-- A plugin is added to the lookup as often as it declares a hook for the event. -/
theorem hooksForEvent_index (hreg : reg.Indexed) (hactive : hosted.isActive = true) :
    (reg.index hosted).hooksForEvent event =
      reg.hooksForEvent event ++ List.replicate (hookCount event hosted) hosted := by
  have hplaces : (reg.index hosted).hooksAt event =
      reg.hooksAt event ++ List.replicate (hookCount event hosted) reg.plugins.length :=
    hooksAt_foldl _ _
  have hearlier : (reg.hooksAt event).filterMap (reg.index hosted).activeAt =
      (reg.hooksAt event).filterMap reg.activeAt :=
    List.filterMap_congr fun idx hidx => activeAt_index (hreg.hooks.lt hidx)
  rw [hooksForEvent, ← hooksAt, hplaces, List.filterMap_append, hearlier,
    List.filterMap_replicate_of_some (activeAt_index_length hactive)]
  rfl

theorem activePlugins_index (hactive : hosted.isActive = true) :
    (reg.index hosted).activePlugins = reg.activePlugins ++ [hosted] := by
  rw [activePlugins, index_plugins, List.filter_append, List.filter_cons_of_pos hactive]
  rfl

/-- What the loads keep. -/
structure HooksFiled (reg : PluginRegistry) : Prop where
  indexed : reg.Indexed
  hooks : ∀ event, reg.hooksForEvent event =
    reg.activePlugins.flatMap fun hosted => List.replicate (hookCount event hosted) hosted

theorem HooksFiled.index (h : reg.HooksFiled) (hactive : hosted.isActive = true) :
    (reg.index hosted).HooksFiled := by
  refine ⟨h.indexed.index hosted, fun event => ?_⟩
  rw [hooksForEvent_index h.indexed hactive, activePlugins_index hactive, List.flatMap_append,
    List.flatMap_singleton, h.hooks event]

theorem HooksFiled.foldl_index {loads : List HostedPlugin} (h : reg.HooksFiled)
    (hactive : ∀ hosted ∈ loads, hosted.isActive = true) :
    (loads.foldl (fun reg hosted => reg.index hosted) reg).HooksFiled := by
  induction loads generalizing reg with
  | nil => exact h
  | cons hosted loads ih =>
    obtain ⟨hhosted, hloads⟩ := List.forall_mem_cons.mp hactive
    exact ih (h.index hhosted) hloads

theorem isActive_of_mem_acceptedFrom {dir : PluginsDir} {policy : TrustPolicy}
    (h : hosted ∈ acceptedFrom env dir policy) : hosted.isActive = true := by
  obtain ⟨entry, -, haccepted⟩ := lists_of_mem_acceptedFrom h
  exact (vetted_of_accepted haccepted).active

theorem hooksFiled_loadAll (calls : List (PluginsDir × TrustPolicy)) :
    (loadAll env calls).HooksFiled := by
  refine Run.run_invariant (fun reg call hreg => ?_) calls ⟨indexed_new, fun event => rfl⟩
  rw [loadFromDir_fst]
  exact hreg.foldl_index fun hosted => isActive_of_mem_acceptedFrom

end PluginRegistry

/-- Repeating some elements and leaving others out filters a list only if none is repeated. -/
theorem flatMap_replicate_eq_filter_iff {α : Type*} (n : α → Nat) (l : List α) :
    (l.flatMap fun a => List.replicate (n a) a) = l.filter (fun a => 1 ≤ n a) ↔
      ∀ a ∈ l, n a ≤ 1 := by
  have hlength (l : List α) :
      (l.filter fun a => 1 ≤ n a).length ≤ (l.flatMap fun a => List.replicate (n a) a).length := by
    induction l with
    | nil => exact le_rfl
    | cons a l ih =>
      rw [List.flatMap_cons, List.length_append, List.length_replicate, List.filter_cons]
      split
      · next ha =>
        have ha := of_decide_eq_true ha
        rw [List.length_cons]
        omega
      · omega
  induction l with
  | nil => exact ⟨fun _ => nofun, fun _ => rfl⟩
  | cons a l ih =>
    refine Iff.trans ?_ (List.forall_mem_cons.trans (and_congr_right fun _ => ih.symm)).symm
    rw [List.flatMap_cons, List.filter_cons]
    have hrest := hlength l
    match hn : n a with
    | 0 => simp
    | 1 => simp
    | k + 2 =>
      constructor
      · intro h
        have h := congrArg List.length h
        simp only [List.length_append, List.length_replicate] at h
        rw [if_pos (by simp), List.length_cons] at h
        omega
      · rintro ⟨h, -⟩
        omega

/-- A plugin is given more than once exactly if it declares several hooks for the event. -/
theorem listsEachOnce_iff (env : PluginEnv) (calls : List (PluginsDir × TrustPolicy))
    (event : String) : ListsEachOnce (PluginRegistry.loadAll env calls) event ↔
      ∀ hosted ∈ (PluginRegistry.loadAll env calls).activePlugins, hookCount event hosted ≤ 1 := by
  rw [ListsEachOnce, (PluginRegistry.hooksFiled_loadAll calls).hooks event]
  exact flatMap_replicate_eq_filter_iff _ _

/-- A plugin of the directory `/plugins/p`. -/
def sampleEntry (toml : String) : PluginEntry where
  path := "/plugins/p"
  isDir := true
  fileName := some "p"
  manifestBytes := .ok toml.toByteArray
  signatureExists := false
  signatureText := .error "No such file or directory (os error 2)"
  skillFile _ := none

/-- A parser that knows one manifest, and no keys. -/
def sampleEnv (toml : String) (manifest : PluginManifest) : PluginEnv where
  parseManifest content := if content = toml then .ok manifest else .error "unknown"
  utf8Error _ := ""
  hexDecode _ := .error "Odd number of digits"
  Key := Empty
  verifyingKey _ := .error "signature error"
  verify _ _ _ := false

/-- A call for the directory of this plugin. -/
def sampleCalls (toml : String) : List (PluginsDir × TrustPolicy) :=
  [({ path := "/plugins", present := true, entries := .ok [.ok (sampleEntry toml)] },
    .upTo .shell)]

theorem loadAll_sample (toml : String) (manifest : PluginManifest)
    (htrust : manifest.trust = .shell) :
    PluginRegistry.loadAll (sampleEnv toml manifest) (sampleCalls toml) =
      PluginRegistry.new.index (applyPolicy (.fromManifest (sampleEntry toml) manifest)
        (.upTo .shell)) := by
  have hloads : Loads (sampleEnv toml manifest) (sampleEntry toml) .allowUnsigned toml.toByteArray
      manifest := by
    refine ⟨rfl, ?_, rfl⟩
    have hutf8 : String.fromUTF8? toml.toByteArray = some toml := dif_pos toml.isValidUTF8
    rw [parseBytes, hutf8, sampleEnv]
    exact ExceptRules.mapError_eq_ok.mpr (if_pos rfl)
  have hload : loadWithVerification (sampleEnv toml manifest) (sampleEntry toml) .allowUnsigned =
      .ok (.fromManifest (sampleEntry toml) manifest) :=
    loadWithVerification_eq_ok_iff.mpr ⟨_, manifest, hloads, rfl⟩
  have hactive : (applyPolicy (.fromManifest (sampleEntry toml) manifest)
      (.upTo .shell)).rejection = none := by
    rw [applyPolicy, LoadedPlugin.fromManifest_manifest, htrust]
    rfl
  have haccepted : accepted (sampleEnv toml manifest) (.upTo .shell) (sampleEntry toml) =
      some (applyPolicy (.fromManifest (sampleEntry toml) manifest) (.upTo .shell)) := by
    have hdir : ¬((!(sampleEntry toml).isDir || PluginRegistry.isHidden (sampleEntry toml)) = true) :=
      Bool.false_ne_true
    rw [accepted, if_neg hdir, show (TrustPolicy.upTo .shell).verification = .allowUnsigned from rfl,
      hload]
    exact if_pos (by rw [hactive]; rfl)
  rw [PluginRegistry.loadAll, sampleCalls, Run.run_cons]
  change (PluginRegistry.loadFromDir _ _ _ _).1 = _
  rw [PluginRegistry.loadFromDir_fst]
  change ([sampleEntry toml].filterMap _).foldl _ _ = _
  rw [List.filterMap_cons_some haccepted]
  rfl

def twoHooksToml : String :=
  "name = \"p\"\nversion = \"1.0.0\"\ndescription = \"\"\ntrust = \"shell\"\n" ++
  "[[capabilities]]\ntype = \"hook\"\nevent = \"pre-tool\"\ncommand = \"a.sh\"\n" ++
  "[[capabilities]]\ntype = \"hook\"\nevent = \"pre-tool\"\ncommand = \"b.sh\"\n"

def twoHooks : PluginManifest :=
  ⟨"p", "1.0.0", "", .shell, [.hook "pre-tool" "a.sh", .hook "pre-tool" "b.sh"], none, []⟩

/-- A plugin with two hooks for an event is given twice. -/
theorem twoHooks_listed_twice :
    ¬ListsEachOnce (PluginRegistry.loadAll (sampleEnv twoHooksToml twoHooks)
      (sampleCalls twoHooksToml)) "pre-tool" := by
  intro h
  rw [loadAll_sample _ _ rfl] at h
  have hlength := congrArg List.length h
  cases hlength

/-! ### Toolsets -/

structure ToolInfo where
  name : String
  description : String
  schema : Json
  source : String

/-- The programs that were started, and the result or its message. -/
abbrev ToolRun := List Spawn × Except String String

def PluginTool.toolRun (tool : PluginTool) (host : CommandHost) (args : String) : ToolRun :=
  let run := tool.execute host args
  (run.spawned, run.result.mapError (RunError.text "tool"))

/-- The first tool of a list that has the name. -/
def findTool (name : String) (tools : List Capability) : Option Capability :=
  tools.find? fun
    | .tool n .. => n = name
    | _ => false

namespace PluginRegistry

/-- `names` of a `PluginToolset` -/
def toolNames (reg : PluginRegistry) : List String :=
  reg.activePlugins.flatMap fun hosted => hosted.plugin.tools.filterMap fun
    | .tool name .. => some name
    | _ => none

/-- `info` of a `PluginToolset` -/
def toolInfo (reg : PluginRegistry) (name : String) : Option ToolInfo := do
  let hosted ← reg.toolByName name
  match ← findTool name hosted.plugin.tools with
  | .tool name description schema _ =>
    some { name, description, schema, source := "plugin:" ++ hosted.plugin.manifest.name }
  | _ => none

/-- `execute` of a `PluginToolset` -/
def executeTool (reg : PluginRegistry) (host : CommandHost) (name args : String) : ToolRun :=
  match reg.toolByName name with
  | none => ([], .error ("unknown plugin tool: " ++ name))
  | some hosted =>
    match findTool name hosted.plugin.tools with
    | none => ([], .error ("plugin tool " ++ name ++ " disappeared"))
    | some cap =>
      match PluginTool.fromCapability cap hosted.plugin.root hosted.plugin.manifest.name
          hosted.effectiveTrust with
      | none => ([], .error ("plugin tool " ++ name ++ " has no command"))
      | some tool => tool.toolRun host args

end PluginRegistry

/-- A registry that calls of `load_from_dir` have made. -/
abbrev LoadedRegistry : Type :=
  { reg : PluginRegistry // ∃ env calls, reg = PluginRegistry.loadAll env calls }

/-- `PluginToolset` and `CompositeToolset`. -/
inductive Toolset
  | plugins (registry : LoadedRegistry)
  | composite (toolsets : List Toolset)

namespace Toolset

mutual
def names : Toolset → List String
  | plugins registry => registry.val.toolNames
  | composite toolsets => namesAll toolsets

def namesAll : List Toolset → List String
  | [] => []
  | t :: ts => t.names ++ namesAll ts
end

mutual
def info (name : String) : Toolset → Option ToolInfo
  | plugins registry => registry.val.toolInfo name
  | composite toolsets => infoFirst name toolsets

def infoFirst (name : String) : List Toolset → Option ToolInfo
  | [] => none
  | t :: ts => (t.info name).or (infoFirst name ts)
end

mutual
def execute (host : CommandHost) (name args : String) : Toolset → ToolRun
  | plugins registry => registry.val.executeTool host name args
  | composite toolsets => executeFirst host name args toolsets

def executeFirst (host : CommandHost) (name args : String) : List Toolset → ToolRun
  | [] => ([], .error ("unknown tool: " ++ name))
  | t :: ts => if name ∈ t.names then t.execute host name args else executeFirst host name args ts
end

mutual
/-- The registries that a toolset is built over. -/
def registries : Toolset → List LoadedRegistry
  | plugins registry => [registry]
  | composite toolsets => registriesAll toolsets

def registriesAll : List Toolset → List LoadedRegistry
  | [] => []
  | t :: ts => t.registries ++ registriesAll ts
end

end Toolset

/-- The description is that of a tool of a hosted plugin. -/
def Describes (hosted : HostedPlugin) (cap : Capability) (info : ToolInfo) : Prop :=
  cap ∈ hosted.plugin.tools ∧ ∃ command, cap = .tool info.name info.description info.schema command ∧
    info.source = "plugin:" ++ hosted.plugin.manifest.name

/-- The tool that a capability of a hosted plugin is run as. -/
def toolOf (hosted : HostedPlugin) (cap : Capability) : Option PluginTool :=
  PluginTool.fromCapability cap hosted.plugin.root hosted.plugin.manifest.name hosted.effectiveTrust

/-- A name is listed if it has a description, and the tool that is described is the one that
runs. -/
structure RunsWhatItShows (t : Toolset) : Prop where
  listed : ∀ name, name ∈ t.names ↔ (t.info name).isSome
  runs : ∀ name info, t.info name = some info → info.name = name ∧
    ∃ registry ∈ t.registries, ∃ hosted ∈ registry.val.activePlugins, ∃ cap,
      Describes hosted cap info ∧ ∃ tool, toolOf hosted cap = some tool ∧
        ∀ host args, t.execute host name args = tool.toolRun host args

def noCommandToml : String :=
  "name = \"p\"\nversion = \"1.0.0\"\ndescription = \"\"\ntrust = \"shell\"\n" ++
  "[[capabilities]]\ntype = \"tool\"\nname = \"t\"\n"

def noCommand : PluginManifest :=
  ⟨"p", "1.0.0", "", .shell, [.tool "t" "" .null none], none, []⟩

/-- The registry with a tool that has no command. -/
def noCommandRegistry : LoadedRegistry :=
  ⟨PluginRegistry.new.index (applyPolicy (.fromManifest (sampleEntry noCommandToml) noCommand)
      (.upTo .shell)),
    sampleEnv noCommandToml noCommand, sampleCalls noCommandToml, (loadAll_sample _ _ rfl).symm⟩

/-- The tool is shown and cannot be run. -/
theorem noCommand_shown : ¬RunsWhatItShows (.plugins noCommandRegistry) := by
  intro h
  obtain ⟨-, registry, hregistry, hosted, hactive, cap, ⟨hcap, -⟩, tool, htool, -⟩ :=
    h.runs "t" ⟨"t", "", .null, "plugin:p"⟩ rfl
  obtain rfl := List.mem_singleton.mp hregistry
  obtain rfl := List.mem_singleton.mp hactive
  obtain rfl := List.mem_singleton.mp hcap
  cases htool

/-- The same for a toolset or a list of them, where a tool without a command is reported as such. -/
structure Coherent (registries : List LoadedRegistry) (names : List String)
    (info : String → Option ToolInfo) (execute : CommandHost → String → String → ToolRun) :
    Prop where
  listed : ∀ name, name ∈ names ↔ (info name).isSome
  runs : ∀ name i, info name = some i → i.name = name ∧
    ∃ registry ∈ registries, ∃ hosted ∈ registry.val.activePlugins, ∃ cap, Describes hosted cap i ∧
      ∀ host args, execute host name args =
        match toolOf hosted cap with
        | some tool => tool.toolRun host args
        | none => ([], .error ("plugin tool " ++ name ++ " has no command"))
  unlisted : ∀ name, info name = none → ∀ host args, (execute host name args).1 = []

/-! ### The tools of a loaded plugin -/

theorem tools_fromManifest (entry : PluginEntry) (manifest : PluginManifest) :
    (LoadedPlugin.fromManifest entry manifest).tools =
      manifest.capabilities.filter fun cap => cap.kind = .tool := by
  have hfoldl (caps : List Capability) (plugin : LoadedPlugin) :
      (caps.foldl (LoadedPlugin.addCapability entry) plugin).tools =
        plugin.tools ++ caps.filter fun cap => cap.kind = .tool := by
    induction caps generalizing plugin with
    | nil => exact (List.append_nil _).symm
    | cons cap caps ih =>
      rw [List.foldl_cons, ih]
      cases cap with
      | skill =>
        rw [LoadedPlugin.addCapability]
        split <;> rfl
      | tool => exact List.append_assoc ..
      | hook | verifier => rfl
  exact hfoldl _ _

/-- A hosted plugin has the tools of its manifest, and no others. -/
theorem mem_tools_iff {policy : TrustPolicy} {entry : PluginEntry}
    (h : accepted env policy entry = some hosted) (cap : Capability) :
    cap ∈ hosted.plugin.tools ↔
      cap ∈ hosted.plugin.manifest.capabilities ∧ cap.kind = .tool := by
  obtain ⟨_, manifest, -, rfl, hactive⟩ := exists_of_accepted h
  rw [(applyPolicy_accepted hactive).2]
  simp only [filterCapabilitiesByTier, tools_fromManifest, LoadedPlugin.fromManifest_manifest,
    List.mem_filter, decide_eq_true_eq]
  constructor
  · rintro ⟨⟨-, hkind⟩, hallowed⟩
    exact ⟨hallowed, hkind⟩
  · rintro ⟨hallowed, hkind⟩
    exact ⟨⟨(List.mem_filter.mp hallowed).1, hkind⟩, hallowed⟩

namespace PluginRegistry

variable {name : String}

theorem isSome_indexCapability {idx : Nat} (cap : Capability)
    (h : (reg.toolsByName.get? name).isSome ∨ cap.kind = .tool ∧ cap.key = name) :
    ((reg.indexCapability idx cap).toolsByName.get? name).isSome := by
  cases cap with
  | skill | hook | verifier => exact h.resolve_right fun hcap => nomatch hcap.1
  | tool n =>
    rw [indexCapability, OrderedMap.get?_set]
    split
    · rfl
    · next hne => exact h.resolve_right fun hcap => hne hcap.2

theorem isSome_foldl {idx : Nat} {caps : List Capability}
    (h : (reg.toolsByName.get? name).isSome ∨
      ∃ cap ∈ caps, cap.kind = .tool ∧ cap.key = name) :
    ((caps.foldl (indexCapability idx) reg).toolsByName.get? name).isSome := by
  induction caps generalizing reg with
  | nil =>
    exact h.resolve_right fun ⟨cap, hcap, _⟩ => absurd hcap List.not_mem_nil
  | cons cap caps ih =>
    apply ih
    obtain h | ⟨cap', hcap', hname⟩ := h
    · exact .inl (isSome_indexCapability cap (.inl h))
    · obtain rfl | hcap' := List.mem_cons.mp hcap'
      · exact .inl (isSome_indexCapability cap' (.inr hname))
      · exact .inr ⟨cap', hcap', hname⟩

/-- Every tool that a plugin declares is filed. -/
def ToolsFiled (reg : PluginRegistry) : Prop :=
  ∀ hosted ∈ reg.plugins, ∀ name, Declares .tool hosted name →
    (reg.toolsByName.get? name).isSome

theorem ToolsFiled.index (h : reg.ToolsFiled) (hosted : HostedPlugin) :
    (reg.index hosted).ToolsFiled := by
  intro hosted' hhosted name hdeclares
  rw [index_plugins] at hhosted
  apply isSome_foldl
  obtain hhosted | hhosted := List.mem_append.mp hhosted
  · exact .inl (h hosted' hhosted name hdeclares)
  · rw [List.mem_singleton.mp hhosted] at hdeclares
    exact .inr hdeclares

theorem toolsFiled_loadAll (calls : List (PluginsDir × TrustPolicy)) :
    (loadAll env calls).ToolsFiled := by
  refine Run.run_invariant (fun reg call hreg => ?_) calls (fun _ h => absurd h List.not_mem_nil)
  have hindex (reg : PluginRegistry) (hosted : HostedPlugin) (h : reg.ToolsFiled) :
      (reg.index hosted).ToolsFiled := h.index hosted
  rw [loadFromDir_fst]
  exact Run.run_invariant hindex _ hreg

end PluginRegistry

/-! ### The lookups of a registry -/

theorem findTool_eq_some {name : String} {tools : List Capability} {cap : Capability}
    (h : findTool name tools = some cap) :
    cap ∈ tools ∧ ∃ description schema command, cap = .tool name description schema command := by
  refine ⟨List.mem_of_find?_eq_some h, ?_⟩
  have hname := List.find?_some h
  cases cap with
  | tool n description schema command =>
    cases of_decide_eq_true hname
    exact ⟨description, schema, command, rfl⟩
  | skill | hook | verifier => cases hname

namespace LoadedRegistry

variable {registry : LoadedRegistry} {name : String}

theorem mem_activePlugins_of_toolByName (h : registry.val.toolByName name = some hosted) :
    hosted ∈ registry.val.activePlugins := by
  obtain ⟨idx, -, hat⟩ := Option.bind_eq_some_iff.mp h
  obtain ⟨hrow, hactive⟩ := PluginRegistry.activeAt_eq_some.mp hat
  exact List.mem_filter.mpr ⟨List.mem_of_getElem? hrow, hactive⟩

theorem mem_tools_iff (hhosted : hosted ∈ registry.val.plugins) (cap : Capability) :
    cap ∈ hosted.plugin.tools ↔ cap ∈ hosted.plugin.manifest.capabilities ∧ cap.kind = .tool := by
  obtain ⟨reg, env, calls, rfl⟩ := registry
  obtain ⟨_, -, _, -, -, haccepted⟩ := PluginRegistry.exists_vetted hhosted
  exact PluginHost.mem_tools_iff haccepted cap

/-- The tool of a name that is listed is found. -/
theorem findTool_isSome (h : registry.val.toolByName name = some hosted) :
    (findTool name hosted.plugin.tools).isSome := by
  have hmem := (List.mem_filter.mp (mem_activePlugins_of_toolByName h)).1
  obtain ⟨idx, hidx, hat⟩ := Option.bind_eq_some_iff.mp h
  have hindexed : registry.val.Indexed := by
    obtain ⟨reg, env, calls, rfl⟩ := registry
    exact PluginRegistry.indexed_loadAll calls
  obtain ⟨cap, hcap, hkind, hkey⟩ :=
    hindexed.tools.of_get? hidx (PluginRegistry.activeAt_eq_some.mp hat).1
  apply List.find?_isSome.mpr
  refine ⟨cap, (mem_tools_iff hmem cap).mpr ⟨hcap, hkind⟩, ?_⟩
  cases cap with
  | tool n => exact decide_eq_true hkey
  | skill | hook | verifier => cases hkind

theorem mem_toolNames_iff : name ∈ registry.val.toolNames ↔
    ∃ hosted ∈ registry.val.activePlugins, ∃ description schema command,
      .tool name description schema command ∈ hosted.plugin.tools := by
  rw [PluginRegistry.toolNames, List.mem_flatMap]
  refine exists_congr fun hosted => and_congr_right fun _ => ?_
  rw [List.mem_filterMap]
  constructor
  · rintro ⟨cap, hcap, hname⟩
    cases cap with
    | tool n description schema command =>
      cases hname
      exact ⟨description, schema, command, hcap⟩
    | skill | hook | verifier => cases hname
  · rintro ⟨description, schema, command, hcap⟩
    exact ⟨_, hcap, rfl⟩

/-- A tool that an active plugin lists can be looked up, perhaps in another plugin. -/
theorem toolByName_isSome (h : name ∈ registry.val.toolNames) :
    (registry.val.toolByName name).isSome := by
  obtain ⟨hosted, hactive, description, schema, command, hcap⟩ := mem_toolNames_iff.mp h
  have hmem := (List.mem_filter.mp hactive).1
  have hdeclared := ((mem_tools_iff hmem _).mp hcap).1
  obtain ⟨reg, env, calls, rfl⟩ := registry
  have hfiled := PluginRegistry.toolsFiled_loadAll calls hosted hmem name ⟨_, hdeclared, rfl, rfl⟩
  obtain ⟨idx, hidx⟩ := Option.isSome_iff_exists.mp hfiled
  obtain ⟨hosted', hrow, hactive', -⟩ :=
    (PluginRegistry.trustInvariant env calls).stored .tool name idx hidx
  change ((PluginRegistry.toolsByName _).get? name |>.bind _).isSome
  rw [hidx, Option.bind_some, PluginRegistry.activeAt_eq_some.mpr ⟨hrow, hactive'⟩]
  rfl

theorem coherent (registry : LoadedRegistry) : Coherent [registry] registry.val.toolNames
    registry.val.toolInfo registry.val.executeTool := by
  have hinfo {name : String} {hosted : HostedPlugin}
      (h : registry.val.toolByName name = some hosted) :
      ∃ description schema command,
        findTool name hosted.plugin.tools = some (.tool name description schema command) ∧
        .tool name description schema command ∈ hosted.plugin.tools ∧
        registry.val.toolInfo name =
          some ⟨name, description, schema, "plugin:" ++ hosted.plugin.manifest.name⟩ := by
    obtain ⟨cap, hcap⟩ := Option.isSome_iff_exists.mp (findTool_isSome h)
    obtain ⟨hmem, description, schema, command, rfl⟩ := findTool_eq_some hcap
    refine ⟨description, schema, command, hcap, hmem, ?_⟩
    simp only [PluginRegistry.toolInfo, h, hcap, Option.bind_eq_bind, Option.bind_some]
  have hnone {name : String} (h : registry.val.toolByName name = none) :
      registry.val.toolInfo name = none := by
    simp only [PluginRegistry.toolInfo, h, Option.bind_eq_bind, Option.bind_none]
  refine ⟨fun name => ?_, fun name info hsome => ?_, fun name h host args => ?_⟩
  · constructor
    · intro hname
      obtain ⟨hosted, hfound⟩ := Option.isSome_iff_exists.mp (toolByName_isSome hname)
      obtain ⟨_, _, _, -, -, h⟩ := hinfo hfound
      rw [h]
      rfl
    · intro hsome
      cases hfound : registry.val.toolByName name with
      | none =>
        rw [hnone hfound] at hsome
        cases hsome
      | some hosted =>
        obtain ⟨description, schema, command, -, hmem, -⟩ := hinfo hfound
        exact mem_toolNames_iff.mpr
          ⟨hosted, mem_activePlugins_of_toolByName hfound, description, schema, command, hmem⟩
  · cases hfound : registry.val.toolByName name with
    | none =>
      rw [hnone hfound] at hsome
      cases hsome
    | some hosted =>
      obtain ⟨description, schema, command, hfind, hmem, h⟩ := hinfo hfound
      cases hsome.symm.trans h
      refine ⟨rfl, registry, List.mem_singleton.mpr rfl, hosted,
        mem_activePlugins_of_toolByName hfound, _, ⟨hmem, command, rfl, rfl⟩, fun host args => ?_⟩
      simp only [PluginRegistry.executeTool, hfound, hfind, toolOf]
      cases command <;> rfl
  · cases hfound : registry.val.toolByName name with
    | none => simp only [PluginRegistry.executeTool, hfound]
    | some hosted =>
      obtain ⟨_, _, _, -, -, hsome⟩ := hinfo hfound
      cases h.symm.trans hsome

end LoadedRegistry

/-! ### Nesting -/

theorem coherent_nil : Coherent [] [] (fun _ => none)
    (fun _ name _ => ([], .error ("unknown tool: " ++ name))) :=
  ⟨fun _ => ⟨nofun, nofun⟩, nofun, fun _ _ _ _ => rfl⟩

/-- Of two sets of tools the first one that lists a name answers for it. -/
theorem Coherent.append {registries registries' : List LoadedRegistry} {names names' : List String}
    {info info' : String → Option ToolInfo}
    {execute execute' : CommandHost → String → String → ToolRun}
    (h : Coherent registries names info execute)
    (h' : Coherent registries' names' info' execute') :
    Coherent (registries ++ registries') (names ++ names') (fun name => (info name).or (info' name))
      (fun host name args =>
        if name ∈ names then execute host name args else execute' host name args) := by
  refine ⟨fun name => ?_, fun name i hi => ?_, fun name hnone host args => ?_⟩
  · rw [List.mem_append, h.listed, h'.listed, Option.isSome_or, Bool.or_eq_true]
  · cases hfirst : info name with
    | some j =>
      rw [hfirst, Option.some_or] at hi
      cases hi
      obtain ⟨hname, registry, hregistry, hosted, hactive, cap, hdescribes, hrun⟩ :=
        h.runs name i hfirst
      have hlisted : name ∈ names := (h.listed name).mpr (by rw [hfirst]; rfl)
      refine ⟨hname, registry, List.mem_append_left _ hregistry, hosted, hactive, cap, hdescribes,
        fun host args => ?_⟩
      rw [if_pos hlisted, hrun]
    | none =>
      rw [hfirst, Option.none_or] at hi
      obtain ⟨hname, registry, hregistry, hosted, hactive, cap, hdescribes, hrun⟩ :=
        h'.runs name i hi
      have hlisted : name ∉ names := fun hmem => by
        have hsome := (h.listed name).mp hmem
        rw [hfirst] at hsome
        cases hsome
      refine ⟨hname, registry, List.mem_append_right _ hregistry, hosted, hactive, cap, hdescribes,
        fun host args => ?_⟩
      rw [if_neg hlisted, hrun]
  · obtain ⟨hfirst, hsecond⟩ := Option.or_eq_none_iff.mp hnone
    split
    · exact h.unlisted name hfirst host args
    · exact h'.unlisted name hsecond host args

mutual
theorem coherent_toolset : (t : Toolset) →
    Coherent t.registries t.names (fun name => t.info name)
      (fun host name args => t.execute host name args)
  | .plugins registry => registry.coherent
  | .composite toolsets => coherent_toolsets toolsets

theorem coherent_toolsets : (ts : List Toolset) →
    Coherent (Toolset.registriesAll ts) (Toolset.namesAll ts)
      (fun name => Toolset.infoFirst name ts)
      (fun host name args => Toolset.executeFirst host name args ts)
  | [] => coherent_nil
  | t :: ts => (coherent_toolset t).append (coherent_toolsets ts)
end

/-- A toolset runs what it shows, or says that the tool has no command. -/
theorem toolset_coherent (t : Toolset) :
    Coherent t.registries t.names (fun name => t.info name)
      (fun host name args => t.execute host name args) :=
  coherent_toolset t

end KirkForge.PluginHost
