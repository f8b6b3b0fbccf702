import KirkForge.PluginHost.Registry
import KirkForge.Theory.OrderedMap
import KirkForge.Theory.Run

/-!
# Only vetted capabilities can be looked up

The registry after any calls of `load_from_dir` holds the plugins that the calls accepted, in order,
and its four indexes are sound references into them. A plugin is accepted with the capabilities that
its effective trust permits, from the bytes that its signature was verified on.
-/

namespace KirkForge.PluginHost

open Plugin References

variable {env : PluginEnv} {policy : TrustPolicy} {entry : PluginEntry}

/-! ### Applying the policy -/

theorem declared_filterCapabilitiesByTier {plugin : LoadedPlugin} (h : plugin.Declared)
    (tier : TrustTier) : (filterCapabilitiesByTier plugin tier).Declared := by
  have hkeep {kind : CapabilityKind} {caps : List Capability}
      (hcaps : ∀ cap ∈ caps, cap ∈ plugin.manifest.capabilities ∧ cap.kind = kind) :
      ∀ cap ∈ caps.filter (· ∈ SandboxPolicy.filter tier plugin.manifest.capabilities),
        cap ∈ SandboxPolicy.filter tier plugin.manifest.capabilities ∧ cap.kind = kind := by
    intro cap hcap
    obtain ⟨hmem, hallowed⟩ := List.mem_filter.mp hcap
    exact ⟨of_decide_eq_true hallowed, (hcaps cap hmem).2⟩
  refine ⟨fun trigger content hget => ?_, hkeep h.hooks, hkeep h.verifiers, hkeep h.tools⟩
  rw [filterCapabilitiesByTier, OrderedMap.get?_retain] at hget
  split at hget
  · next hany =>
    obtain ⟨cap, hcap, htrigger⟩ := List.any_eq_true.mp hany
    cases cap with
    | skill t prompt skillFile modelHint =>
      cases of_decide_eq_true htrigger
      exact ⟨prompt, skillFile, modelHint, hcap⟩
    | tool | hook | verifier => cases htrigger
  · cases hget

/-- What `apply_policy` makes of a plugin that it does not reject. -/
theorem applyPolicy_accepted {plugin : LoadedPlugin}
    (h : (applyPolicy plugin policy).rejection = none) :
    policy.max.permits (applyPolicy plugin policy).effectiveTrust = true ∧
      (applyPolicy plugin policy).plugin =
        filterCapabilitiesByTier plugin (applyPolicy plugin policy).effectiveTrust := by
  rw [applyPolicy] at h ⊢
  split at h
  · cases h
  · next hreject =>
    rw [if_neg hreject]
    refine ⟨?_, rfl⟩
    dsimp only
    split
    · next hmax => exact hmax
    · exact TrustTier.permits_refl policy.max

/-- The hosted plugin that an entry adds to the registry. -/
def accepted (env : PluginEnv) (policy : TrustPolicy) (entry : PluginEntry) :
    Option HostedPlugin :=
  if !entry.isDir || PluginRegistry.isHidden entry then none
  else match loadWithVerification env entry policy.verification with
    | .ok plugin =>
      if (applyPolicy plugin policy).rejection.isNone then some (applyPolicy plugin policy) else none
    | .error _ => none

/-- A hosted plugin that was vetted under a policy. -/
structure Vetted (env : PluginEnv) (policy : TrustPolicy) (entry : PluginEntry)
    (hosted : HostedPlugin) : Prop where
  active : hosted.isActive = true
  root : hosted.plugin.root = entry.path
  le_max : policy.max.permits hosted.effectiveTrust = true
  declared : hosted.plugin.Declared
  /-- The manifest is parsed from the bytes that are verified, and only loses capabilities. -/
  manifest : ∃ manifestBytes manifest, entry.manifestBytes = .ok manifestBytes ∧
    parseBytes env manifestBytes = .ok manifest ∧
    hosted.plugin.manifest = { manifest with
      capabilities := SandboxPolicy.filter hosted.effectiveTrust manifest.capabilities } ∧
    (policy.verification.requireSigned = true → ∃ sigHex, entry.signatureText = .ok sigHex ∧
      SignedByTrustedKey env (trim sigHex) manifestBytes manifest.publicKey policy.verification)

/-- An accepted plugin is loaded from a manifest, and the policy does not reject it. -/
theorem exists_of_accepted {hosted : HostedPlugin} (h : accepted env policy entry = some hosted) :
    ∃ manifestBytes manifest, Loads env entry policy.verification manifestBytes manifest ∧
      hosted = applyPolicy (.fromManifest entry manifest) policy ∧ hosted.rejection = none := by
  rw [accepted] at h
  split at h
  · cases h
  · split at h
    · next plugin hload =>
      split at h
      · next hactive =>
        cases h
        obtain ⟨manifestBytes, manifest, hloads, rfl⟩ := loadWithVerification_eq_ok_iff.mp hload
        exact ⟨manifestBytes, manifest, hloads, rfl, Option.isNone_iff_eq_none.mp hactive⟩
      · cases h
    · cases h

theorem vetted_of_accepted {hosted : HostedPlugin} (h : accepted env policy entry = some hosted) :
    Vetted env policy entry hosted := by
  obtain ⟨manifestBytes, manifest, hloads, rfl, hactive⟩ := exists_of_accepted h
  obtain ⟨hmax, hplugin⟩ := applyPolicy_accepted hactive
  refine ⟨Option.isNone_iff_eq_none.mpr hactive, ?_, hmax, ?_, manifestBytes, manifest, hloads.read,
    hloads.parsed, ?_, hloads.signed⟩
  · rw [hplugin]
    exact LoadedPlugin.fromManifest_root
  · rw [hplugin]
    exact declared_filterCapabilitiesByTier (LoadedPlugin.declared_fromManifest entry manifest) _
  · rw [hplugin, filterCapabilitiesByTier, LoadedPlugin.fromManifest_manifest]

theorem Vetted.permitted {hosted : HostedPlugin} (h : Vetted env policy entry hosted)
    {cap : Capability} (hcap : cap ∈ hosted.plugin.manifest.capabilities) :
    hosted.effectiveTrust.permits (SandboxPolicy.requiredTier cap) = true := by
  obtain ⟨_, manifest, -, -, hmanifest, -⟩ := h.manifest
  rw [hmanifest] at hcap
  exact (List.mem_filter.mp hcap).2

namespace PluginRegistry

variable {reg : PluginRegistry}

/-! ### Indexing -/

/-- The plugin declares a capability of a kind under a key. -/
def Declares (kind : CapabilityKind) (hosted : HostedPlugin) (key : String) : Prop :=
  ∃ cap ∈ hosted.plugin.manifest.capabilities, cap.kind = kind ∧ cap.key = key

/-- Every place that an index holds is that of a plugin with the capability it is filed under. -/
structure Indexed (reg : PluginRegistry) : Prop where
  skills : Sound (Declares .skill) reg.plugins (single reg.skillsByTrigger)
  tools : Sound (Declares .tool) reg.plugins (single reg.toolsByName)
  hooks : Sound (Declares .hook) reg.plugins (several reg.hooksByEvent)
  verifiers : Sound (Declares .verifier) reg.plugins (single reg.verifiersByName)

theorem indexed_new : new.Indexed :=
  ⟨sound_single_empty, sound_single_empty, sound_several_empty, sound_single_empty⟩

theorem indexCapability_plugins (idx : Nat) (cap : Capability) :
    (reg.indexCapability idx cap).plugins = reg.plugins := by
  cases cap <;> rfl

theorem Indexed.indexCapability (h : reg.Indexed) {idx : Nat} {hosted : HostedPlugin}
    (hidx : reg.plugins[idx]? = some hosted) {cap : Capability}
    (hcap : cap ∈ hosted.plugin.manifest.capabilities) : (reg.indexCapability idx cap).Indexed := by
  cases cap with
  | skill => exact { h with skills := h.skills.set hidx ⟨_, hcap, rfl, rfl⟩ }
  | tool => exact { h with tools := h.tools.set hidx ⟨_, hcap, rfl, rfl⟩ }
  | hook => exact { h with hooks := h.hooks.push hidx ⟨_, hcap, rfl, rfl⟩ }
  | verifier => exact { h with verifiers := h.verifiers.set hidx ⟨_, hcap, rfl, rfl⟩ }

theorem foldl_indexCapability_plugins (idx : Nat) (caps : List Capability) :
    (caps.foldl (indexCapability idx) reg).plugins = reg.plugins := by
  induction caps generalizing reg with
  | nil => rfl
  | cons cap caps ih => rw [List.foldl_cons, ih, indexCapability_plugins]

theorem Indexed.foldl_indexCapability (h : reg.Indexed) {idx : Nat} {hosted : HostedPlugin}
    (hidx : reg.plugins[idx]? = some hosted) {caps : List Capability}
    (hcaps : ∀ cap ∈ caps, cap ∈ hosted.plugin.manifest.capabilities) :
    (caps.foldl (PluginRegistry.indexCapability idx) reg).Indexed := by
  induction caps generalizing reg with
  | nil => exact h
  | cons cap caps ih =>
    obtain ⟨hcap, hrest⟩ := List.forall_mem_cons.mp hcaps
    exact ih (h.indexCapability hidx hcap) (by rwa [indexCapability_plugins]) hrest

theorem index_plugins (hosted : HostedPlugin) :
    (reg.index hosted).plugins = reg.plugins ++ [hosted] :=
  foldl_indexCapability_plugins _ _

theorem Indexed.index (h : reg.Indexed) (hosted : HostedPlugin) : (reg.index hosted).Indexed := by
  have hpushed : Indexed { reg with plugins := reg.plugins ++ [hosted] } :=
    ⟨h.skills.append _, h.tools.append _, h.hooks.append _, h.verifiers.append _⟩
  exact hpushed.foldl_indexCapability List.getElem?_concat_length fun _ hcap => hcap

/-! ### Calls -/

/-- The hosted plugins that a call adds, in order. -/
def acceptedFrom (env : PluginEnv) (dir : PluginsDir) (policy : TrustPolicy) :
    List HostedPlugin :=
  if !dir.present then []
  else match dir.entries with
    | .error _ => []
    | .ok entries => (entries.filterMap Except.toOption).filterMap (accepted env policy)

/-- An entry adds the plugin that it is accepted with, or else leaves the registry as it was. -/
theorem loadEntry_fst (warnings : List String) (entry : PluginEntry) :
    (loadEntry env policy (reg, warnings) entry).1 =
      (accepted env policy entry).toList.foldl (fun reg hosted => reg.index hosted) reg := by
  rw [loadEntry, accepted]
  cases hdir : entry.isDir with
  | false => rfl
  | true =>
    cases hhidden : isHidden entry with
    | true => rfl
    | false =>
      cases hload : loadWithVerification env entry policy.verification with
      | error e => rfl
      | ok plugin =>
        cases hreject : (applyPolicy plugin policy).rejection with
        | some reason => simp [hreject]
        | none => simp [hreject]

theorem foldl_loadEntry_fst (entries : List PluginEntry) (warnings : List String) :
    (entries.foldl (loadEntry env policy) (reg, warnings)).1 =
      (entries.filterMap (accepted env policy)).foldl (fun reg hosted => reg.index hosted) reg := by
  induction entries generalizing reg warnings with
  | nil => rfl
  | cons entry entries ih =>
    have hentry := @loadEntry_fst env policy reg warnings entry
    generalize hstate : loadEntry env policy (reg, warnings) entry = state at hentry
    obtain ⟨reg', warnings'⟩ := state
    rw [List.foldl_cons, hstate, ih, show reg' = _ from hentry]
    cases haccepted : accepted env policy entry with
    | none => rw [List.filterMap_cons_none haccepted]; rfl
    | some hosted => rw [List.filterMap_cons_some haccepted]; rfl

theorem loadFromDir_fst (dir : PluginsDir) :
    (reg.loadFromDir env dir policy).1 =
      (acceptedFrom env dir policy).foldl (fun reg hosted => reg.index hosted) reg := by
  rw [loadFromDir, acceptedFrom]
  cases dir.present with
  | false => rfl
  | true =>
    cases dir.entries with
    | error e => rfl
    | ok entries => exact foldl_loadEntry_fst _ []

/-- The registry after calls of `load_from_dir` on a new one. -/
def loadAll (env : PluginEnv) (calls : List (PluginsDir × TrustPolicy)) : PluginRegistry :=
  Run.run (fun reg call => (reg.loadFromDir env call.1 call.2).1) new calls

theorem foldl_index_plugins (loads : List HostedPlugin) :
    (loads.foldl (fun reg hosted => reg.index hosted) reg).plugins = reg.plugins ++ loads := by
  induction loads generalizing reg with
  | nil => exact (List.append_nil _).symm
  | cons hosted loads ih => rw [List.foldl_cons, ih, index_plugins, List.append_assoc]; rfl

theorem Indexed.loadFromDir (h : reg.Indexed) (dir : PluginsDir) (policy : TrustPolicy) :
    (reg.loadFromDir env dir policy).1.Indexed := by
  rw [loadFromDir_fst]
  exact Run.run_invariant (fun _ hosted hreg => hreg.index hosted) _ h

theorem indexed_loadAll (calls : List (PluginsDir × TrustPolicy)) : (loadAll env calls).Indexed :=
  Run.run_invariant (fun _ call hreg => hreg.loadFromDir call.1 call.2) calls indexed_new

/-- The plugins of the registry are those that the calls accepted. -/
theorem loadAll_plugins (calls : List (PluginsDir × TrustPolicy)) :
    (loadAll env calls).plugins = calls.flatMap fun call => acceptedFrom env call.1 call.2 := by
  suffices h : ∀ reg : PluginRegistry,
      (Run.run (fun reg call => (reg.loadFromDir env call.1 call.2).1) reg calls).plugins =
        reg.plugins ++ calls.flatMap fun call => acceptedFrom env call.1 call.2 from h new
  intro reg
  induction calls generalizing reg with
  | nil => exact (List.append_nil _).symm
  | cons call calls ih =>
    rw [Run.run_cons, ih, loadFromDir_fst, foldl_index_plugins, List.flatMap_cons,
      List.append_assoc]

/-! ### Lookups -/

/-- The places that the index of a kind holds. -/
def refs (reg : PluginRegistry) : CapabilityKind → String → Nat → Prop
  | .skill => single reg.skillsByTrigger
  | .tool => single reg.toolsByName
  | .hook => several reg.hooksByEvent
  | .verifier => single reg.verifiersByName

theorem Indexed.sound (h : reg.Indexed) (kind : CapabilityKind) :
    Sound (Declares kind) reg.plugins (reg.refs kind) := by
  cases kind with
  | skill => exact h.skills
  | tool => exact h.tools
  | hook => exact h.hooks
  | verifier => exact h.verifiers

/-- What a lookup under a key gives. -/
inductive Found (reg : PluginRegistry) : CapabilityKind → String → LoadedPlugin → Prop
  | skill {trigger : String} {manifest : PluginManifest} {plugin : LoadedPlugin} :
    reg.skillByTrigger trigger = some (manifest, plugin) → Found reg .skill trigger plugin
  | tool {name : String} {hosted : HostedPlugin} :
    reg.toolByName name = some hosted → Found reg .tool name hosted.plugin
  | hook {event : String} {hosted : HostedPlugin} :
    hosted ∈ reg.hooksForEvent event → Found reg .hook event hosted.plugin
  | verifier {name : String} {hosted : HostedPlugin} :
    reg.verifierByName name = some hosted → Found reg .verifier name hosted.plugin

/-- A capability of a plugin that some lookup gives. -/
def Reachable (reg : PluginRegistry) (plugin : LoadedPlugin) (cap : Capability) : Prop :=
  (∃ kind key, reg.Found kind key plugin) ∧ plugin.Offers cap

theorem activeAt_eq_some {idx : Nat} {hosted : HostedPlugin} :
    reg.activeAt idx = some hosted ↔ reg.plugins[idx]? = some hosted ∧ hosted.isActive = true :=
  Option.filter_eq_some_iff

/-- A lookup follows a reference to an active plugin. -/
theorem Found.exists_ref {kind : CapabilityKind} {key : String} {plugin : LoadedPlugin}
    (h : reg.Found kind key plugin) :
    ∃ idx hosted, reg.refs kind key idx ∧ reg.plugins[idx]? = some hosted ∧
      hosted.plugin = plugin := by
  cases h with
  | skill hfound =>
    obtain ⟨idx, hidx, hrest⟩ := Option.bind_eq_some_iff.mp hfound
    obtain ⟨hosted, hat, hpair⟩ := Option.bind_eq_some_iff.mp hrest
    cases hpair
    exact ⟨idx, hosted, hidx, (activeAt_eq_some.mp hat).1, rfl⟩
  | @hook event hosted hfound =>
    obtain ⟨idx, hidx, hat⟩ := List.mem_filterMap.mp hfound
    exact ⟨idx, hosted, hidx, (activeAt_eq_some.mp hat).1, rfl⟩
  | @tool name hosted hfound | @verifier name hosted hfound =>
    obtain ⟨idx, hidx, hat⟩ := Option.bind_eq_some_iff.mp hfound
    exact ⟨idx, hosted, hidx, (activeAt_eq_some.mp hat).1, rfl⟩

theorem Indexed.exists_of_found (h : reg.Indexed) {kind : CapabilityKind} {key : String}
    {plugin : LoadedPlugin} (hfound : reg.Found kind key plugin) :
    ∃ hosted ∈ reg.plugins, hosted.plugin = plugin ∧ Declares kind hosted key := by
  obtain ⟨idx, hosted, hidx, hrow, hplugin⟩ := hfound.exists_ref
  exact ⟨hosted, List.mem_of_getElem? hrow, hplugin, (h.sound kind).of_get? hidx hrow⟩

/-! ### Loads that fail -/

/-- The plugin cannot be loaded, or the policy rejects it. -/
def loadFails (env : PluginEnv) (policy : TrustPolicy) (entry : PluginEntry) : Bool :=
  match loadWithVerification env entry policy.verification with
  | .ok plugin => (applyPolicy plugin policy).rejection.isSome
  | .error _ => true

theorem accepted_eq_none_of_loadFails (h : loadFails env policy entry = true) :
    accepted env policy entry = none := by
  rw [loadFails] at h
  rw [accepted]
  split
  · rfl
  · split at h
    · next plugin hload =>
      exact if_neg (by rw [Option.isNone_iff_eq_none, ← Option.not_isSome_iff_eq_none, not_not, h])
    · rfl

/-- The listing without the entries whose load fails under the policy. -/
def withoutFailed (env : PluginEnv) (call : PluginsDir × TrustPolicy) : PluginsDir × TrustPolicy :=
  ({ call.1 with
    entries := call.1.entries.map (·.filter fun listed =>
      match listed with
      | .ok entry => !loadFails env call.2 entry
      | .error _ => true) }, call.2)

theorem filterMap_accepted_withoutFailed (entries : List (Except String PluginEntry)) :
    ((entries.filter fun listed =>
        match listed with
        | .ok entry => !loadFails env policy entry
        | .error _ => true).filterMap Except.toOption).filterMap (accepted env policy) =
      (entries.filterMap Except.toOption).filterMap (accepted env policy) := by
  induction entries with
  | nil => rfl
  | cons listed entries ih =>
    cases listed with
    | error e => exact ih
    | ok entry =>
      cases hfails : loadFails env policy entry with
      | true =>
        rw [List.filter_cons_of_neg (by simp [hfails]), ih,
          List.filterMap_cons_some (f := Except.toOption) rfl,
          List.filterMap_cons_none (accepted_eq_none_of_loadFails hfails)]
      | false =>
        rw [List.filter_cons_of_pos (by simp [hfails])]
        simp only [Except.toOption, List.filterMap_cons, ih]

theorem acceptedFrom_withoutFailed (call : PluginsDir × TrustPolicy) :
    acceptedFrom env (withoutFailed env call).1 (withoutFailed env call).2 =
      acceptedFrom env call.1 call.2 := by
  obtain ⟨⟨path, present, entries⟩, policy⟩ := call
  cases present with
  | false => rfl
  | true =>
    cases entries with
    | error e => rfl
    | ok entries => exact filterMap_accepted_withoutFailed entries

theorem loadAll_withoutFailed (calls : List (PluginsDir × TrustPolicy)) :
    loadAll env (calls.map (withoutFailed env)) = loadAll env calls := by
  rw [loadAll, loadAll, Run.run, Run.run, List.foldl_map]
  congr 1
  funext reg call
  rw [loadFromDir_fst, loadFromDir_fst, acceptedFrom_withoutFailed]

/-! ### The invariant -/

/-- The listing of the directory gives the entry. -/
def Lists (dir : PluginsDir) (entry : PluginEntry) : Prop :=
  ∃ entries, dir.entries = .ok entries ∧ .ok entry ∈ entries

theorem lists_of_mem_acceptedFrom {dir : PluginsDir} {hosted : HostedPlugin}
    (h : hosted ∈ acceptedFrom env dir policy) :
    ∃ entry, Lists dir entry ∧ accepted env policy entry = some hosted := by
  rw [acceptedFrom] at h
  split at h
  · cases h
  · split at h
    · cases h
    · next entries hentries =>
      obtain ⟨entry, hentry, haccepted⟩ := List.mem_filterMap.mp h
      obtain ⟨listed, hlisted, hoption⟩ := List.mem_filterMap.mp hentry
      cases listed with
      | error e => cases hoption
      | ok listed =>
        cases hoption
        exact ⟨entry, ⟨entries, hentries, hlisted⟩, haccepted⟩

/-- A plugin of the registry comes from an entry that one of the calls accepted. -/
theorem exists_vetted {calls : List (PluginsDir × TrustPolicy)} {hosted : HostedPlugin}
    (h : hosted ∈ (loadAll env calls).plugins) :
    ∃ call ∈ calls, ∃ entry, Lists call.1 entry ∧ Vetted env call.2 entry hosted ∧
      accepted env call.2 entry = some hosted := by
  rw [loadAll_plugins, List.mem_flatMap] at h
  obtain ⟨call, hcall, hmem⟩ := h
  obtain ⟨entry, hlists, haccepted⟩ := lists_of_mem_acceptedFrom hmem
  exact ⟨call, hcall, entry, hlists, vetted_of_accepted haccepted, haccepted⟩

/-- What holds of the registry after calls of `load_from_dir`. -/
structure TrustInvariant (env : PluginEnv) (calls : List (PluginsDir × TrustPolicy))
    (reg : PluginRegistry) : Prop where
  /-- A stored place is that of an active plugin with the capability that it is filed under. -/
  stored : ∀ kind key idx, reg.refs kind key idx → ∃ hosted, reg.plugins[idx]? = some hosted ∧
    hosted.isActive = true ∧ Declares kind hosted key
  /-- A lookup gives a hosted plugin with the capability that was looked up. -/
  found : ∀ kind key plugin, reg.Found kind key plugin →
    ∃ hosted ∈ reg.plugins, hosted.plugin = plugin ∧ Declares kind hosted key
  /-- A reachable capability is permitted to its plugin, which a call vetted under its policy. -/
  trusted : ∀ plugin cap, reg.Reachable plugin cap → ∃ hosted ∈ reg.plugins,
    hosted.plugin = plugin ∧
    hosted.effectiveTrust.permits (SandboxPolicy.requiredTier cap) = true ∧
    ∃ call ∈ calls, ∃ entry, Lists call.1 entry ∧ Vetted env call.2 entry hosted
  /-- A load that fails leaves nothing behind. -/
  failed : loadAll env (calls.map (withoutFailed env)) = reg
  /-- A plugin of which every load fails has no reachable capability. -/
  absent : ∀ path, (∀ call ∈ calls, ∀ entry, Lists call.1 entry → entry.path = path →
    loadFails env call.2 entry = true) → ∀ plugin cap, reg.Reachable plugin cap →
    plugin.root ≠ path

theorem trustInvariant (env : PluginEnv) (calls : List (PluginsDir × TrustPolicy)) :
    TrustInvariant env calls (loadAll env calls) := by
  have hindexed : (loadAll env calls).Indexed := indexed_loadAll calls
  refine ⟨?_, fun kind key plugin => hindexed.exists_of_found, ?_, loadAll_withoutFailed calls, ?_⟩
  · intro kind key idx hidx
    obtain ⟨hosted, hrow, hdeclares⟩ := hindexed.sound kind key idx hidx
    obtain ⟨call, -, entry, -, hvetted, -⟩ := exists_vetted (List.mem_of_getElem? hrow)
    exact ⟨hosted, hrow, hvetted.active, hdeclares⟩
  · rintro plugin cap ⟨⟨kind, key, hfound⟩, hoffers⟩
    obtain ⟨hosted, hmem, rfl, -⟩ := hindexed.exists_of_found hfound
    obtain ⟨call, hcall, entry, hlists, hvetted, -⟩ := exists_vetted hmem
    exact ⟨hosted, hmem, rfl, hvetted.permitted (hvetted.declared.mem_of_offers hoffers), call,
      hcall, entry, hlists, hvetted⟩
  · rintro path hfails plugin cap ⟨⟨kind, key, hfound⟩, -⟩ rfl
    obtain ⟨hosted, hmem, rfl, -⟩ := hindexed.exists_of_found hfound
    obtain ⟨call, hcall, entry, hlists, hvetted, haccepted⟩ := exists_vetted hmem
    have hnone := accepted_eq_none_of_loadFails (hfails call hcall entry hlists hvetted.root.symm)
    cases hnone.symm.trans haccepted

end PluginRegistry

end KirkForge.PluginHost
