import KirkForge.Theory.Json
import Mathlib.Data.List.DropRight

/-!
# Plugin manifests

The data of `crates/kirkforge-plugin/src/lib.rs`, and the plugin that a parsed manifest makes of
its directory. A path is its text. What the file system answers about the directory is part of the
input: each file is read at most once in a load.
-/

namespace KirkForge.Plugin

/-! ### Strings of the Rust library -/

/-- `char::is_whitespace`. -/
def isWhitespace (c : Char) : Bool :=
  c.toNat ∈ [0x09, 0x0A, 0x0B, 0x0C, 0x0D, 0x20, 0x85, 0xA0, 0x1680, 0x2028, 0x2029, 0x202F,
    0x205F, 0x3000] || (0x2000 ≤ c.toNat && c.toNat ≤ 0x200A)

/-- `str::trim`. -/
def trim (s : String) : String :=
  String.ofList ((s.toList.dropWhile isWhitespace).rdropWhile isWhitespace)

/-- `str::replace` on characters, for a pattern that is not empty: `skip` characters of a match are
still to be passed over. -/
def replaceFrom (pattern new : List Char) : Nat → List Char → List Char
  | _, [] => []
  | skip + 1, _ :: cs => replaceFrom pattern new skip cs
  | 0, c :: cs =>
    if pattern.isPrefixOf (c :: cs) then new ++ replaceFrom pattern new (pattern.length - 1) cs
    else c :: replaceFrom pattern new 0 cs

def replace (pattern new s : String) : String :=
  String.ofList (replaceFrom pattern.toList new.toList 0 s.toList)

/-! ### Trust tiers -/

inductive TrustTier
  | readOnly
  | shell
  | network
  | unsafeTier
  deriving DecidableEq

namespace TrustTier

instance : Inhabited TrustTier := ⟨readOnly⟩

def rank : TrustTier → Nat
  | readOnly => 0
  | shell => 1
  | network => 2
  | unsafeTier => 3

/-- `self` is at least as privileged as `other`. -/
def permits (self other : TrustTier) : Bool := other.rank ≤ self.rank

def text : TrustTier → String
  | readOnly => "read-only"
  | shell => "shell"
  | network => "network"
  | unsafeTier => "unsafe"

theorem permits_iff {s t : TrustTier} : s.permits t = true ↔ t.rank ≤ s.rank := by
  simp [permits]

theorem permits_refl (t : TrustTier) : t.permits t = true := permits_iff.mpr le_rfl

end TrustTier

/-! ### Capabilities and manifests -/

inductive CapabilityKind
  | skill
  | tool
  | hook
  | verifier
  deriving DecidableEq

inductive Capability
  | skill (trigger prompt : String) (skillFile modelHint : Option String)
  | tool (name description : String) (schema : Json) (command : Option String)
  | hook (event command : String)
  | verifier (name : String) (priority : UInt8) (command : Option String)
  deriving DecidableEq

def Capability.kind : Capability → CapabilityKind
  | .skill .. => .skill
  | .tool .. => .tool
  | .hook .. => .hook
  | .verifier .. => .verifier

/-- The name under which a capability is looked up. -/
def Capability.key : Capability → String
  | .skill trigger .. => trigger
  | .tool name .. => name
  | .hook event _ => event
  | .verifier name .. => name

structure PluginManifest where
  name : String
  version : String
  description : String
  trust : TrustTier
  capabilities : List Capability
  publicKey : Option String
  metadata : List (String × String)

def PluginManifest.hasCapability (kind : CapabilityKind) (manifest : PluginManifest) : Bool :=
  manifest.capabilities.any (·.kind = kind)

/-- The entry of a plugins directory, with what a load reads of it. -/
structure PluginEntry where
  path : String
  isDir : Bool
  /-- `path.file_name()`, if it is Unicode. -/
  fileName : Option String
  /-- What `fs::read` gives for `kirkforge.toml`. -/
  manifestBytes : Except String ByteArray
  signatureExists : Bool
  /-- What `fs::read_to_string` gives for `kirkforge.sig`. -/
  signatureText : Except String String
  /-- `fs::read_to_string(path.join(f)).ok()` -/
  skillFile : String → Option String

structure LoadedPlugin where
  manifest : PluginManifest
  root : String
  skillPrompts : OrderedMap String String
  hooks : List Capability
  verifiers : List Capability
  tools : List Capability

namespace LoadedPlugin

/-- The prompt of a skill: its file, unless that is blank. -/
def skillContent (entry : PluginEntry) (prompt : String) (skillFile : Option String) : String :=
  ((skillFile.bind entry.skillFile).filter (fun c => trim c ≠ "")).getD prompt

/-- The body of the loop of `from_manifest`. -/
def addCapability (entry : PluginEntry) (plugin : LoadedPlugin) (cap : Capability) :
    LoadedPlugin :=
  match cap with
  | .skill trigger prompt skillFile _ =>
    let content := skillContent entry prompt skillFile
    if content = "" then plugin
    else { plugin with skillPrompts := plugin.skillPrompts.set trigger content }
  | .hook .. => { plugin with hooks := plugin.hooks ++ [cap] }
  | .verifier .. => { plugin with verifiers := plugin.verifiers ++ [cap] }
  | .tool .. => { plugin with tools := plugin.tools ++ [cap] }

def fromManifest (entry : PluginEntry) (manifest : PluginManifest) : LoadedPlugin :=
  manifest.capabilities.foldl (addCapability entry) {
    manifest
    root := entry.path
    skillPrompts := ∅
    hooks := []
    verifiers := []
    tools := [] }

def skillPrompt (trigger args : String) (plugin : LoadedPlugin) : Option String :=
  (plugin.skillPrompts.get? trigger).map fun template =>
    replace "{{trigger}}" trigger (replace "{{args}}" args template)

/-! ### What a loaded plugin holds -/

/-- The capability is one that a loaded plugin shows. -/
def Offers (plugin : LoadedPlugin) (cap : Capability) : Prop :=
  cap ∈ plugin.manifest.capabilities ∨ cap ∈ plugin.hooks ∨ cap ∈ plugin.verifiers ∨
    cap ∈ plugin.tools

/-- What `skill_prompts`, `hooks`, `verifiers` and `tools` hold is declared by the manifest. -/
structure Declared (plugin : LoadedPlugin) : Prop where
  skill : ∀ trigger content, plugin.skillPrompts.get? trigger = some content →
    ∃ prompt skillFile modelHint,
      .skill trigger prompt skillFile modelHint ∈ plugin.manifest.capabilities
  hooks : ∀ cap ∈ plugin.hooks, cap ∈ plugin.manifest.capabilities ∧ cap.kind = .hook
  verifiers : ∀ cap ∈ plugin.verifiers, cap ∈ plugin.manifest.capabilities ∧ cap.kind = .verifier
  tools : ∀ cap ∈ plugin.tools, cap ∈ plugin.manifest.capabilities ∧ cap.kind = .tool

variable {entry : PluginEntry} {manifest : PluginManifest} {plugin : LoadedPlugin}

theorem Declared.mem_of_offers (h : plugin.Declared) {cap : Capability}
    (hoffers : plugin.Offers cap) : cap ∈ plugin.manifest.capabilities := by
  obtain hcap | hcap | hcap | hcap := hoffers
  · exact hcap
  · exact (h.hooks cap hcap).1
  · exact (h.verifiers cap hcap).1
  · exact (h.tools cap hcap).1

@[simp] theorem addCapability_manifest (cap : Capability) :
    (addCapability entry plugin cap).manifest = plugin.manifest := by
  cases cap with
  | skill => rw [addCapability]; split <;> rfl
  | tool | hook | verifier => rfl

@[simp] theorem addCapability_root (cap : Capability) :
    (addCapability entry plugin cap).root = plugin.root := by
  cases cap with
  | skill => rw [addCapability]; split <;> rfl
  | tool | hook | verifier => rfl

theorem Declared.addCapability (h : plugin.Declared) {cap : Capability}
    (hcap : cap ∈ plugin.manifest.capabilities) : (addCapability entry plugin cap).Declared := by
  have hpush {kind : CapabilityKind} {caps : List Capability} (hkind : cap.kind = kind)
      (hcaps : ∀ c ∈ caps, c ∈ plugin.manifest.capabilities ∧ c.kind = kind) :
      ∀ c ∈ caps ++ [cap], c ∈ plugin.manifest.capabilities ∧ c.kind = kind := by
    intro c hc
    obtain hc | hc := List.mem_append.mp hc
    · exact hcaps c hc
    · cases List.mem_singleton.mp hc
      exact ⟨hcap, hkind⟩
  cases cap with
  | skill trigger prompt skillFile modelHint =>
    rw [LoadedPlugin.addCapability]
    split
    · exact h
    · refine ⟨fun t content ht => ?_, h.hooks, h.verifiers, h.tools⟩
      rw [OrderedMap.get?_set] at ht
      split at ht
      · next heq => exact heq ▸ ⟨prompt, skillFile, modelHint, hcap⟩
      · exact h.skill t content ht
  | tool => exact { h with tools := hpush rfl h.tools }
  | hook => exact { h with hooks := hpush rfl h.hooks }
  | verifier => exact { h with verifiers := hpush rfl h.verifiers }

theorem Declared.foldl {caps : List Capability} (h : plugin.Declared)
    (hcaps : ∀ cap ∈ caps, cap ∈ plugin.manifest.capabilities) :
    (caps.foldl (LoadedPlugin.addCapability entry) plugin).Declared := by
  induction caps generalizing plugin with
  | nil => exact h
  | cons cap caps ih =>
    refine ih (h.addCapability (hcaps cap List.mem_cons_self)) fun c hc => ?_
    rw [addCapability_manifest]
    exact hcaps c (List.mem_cons_of_mem cap hc)

theorem foldl_addCapability (caps : List Capability) :
    (caps.foldl (addCapability entry) plugin).manifest = plugin.manifest ∧
      (caps.foldl (addCapability entry) plugin).root = plugin.root := by
  induction caps generalizing plugin with
  | nil => exact ⟨rfl, rfl⟩
  | cons cap caps ih =>
    obtain ⟨hmanifest, hroot⟩ := @ih (addCapability entry plugin cap)
    rw [addCapability_manifest] at hmanifest
    rw [addCapability_root] at hroot
    exact ⟨hmanifest, hroot⟩

@[simp] theorem fromManifest_manifest : (fromManifest entry manifest).manifest = manifest :=
  (foldl_addCapability manifest.capabilities).1

@[simp] theorem fromManifest_root : (fromManifest entry manifest).root = entry.path :=
  (foldl_addCapability manifest.capabilities).2

theorem declared_fromManifest (entry : PluginEntry) (manifest : PluginManifest) :
    (fromManifest entry manifest).Declared :=
  Declared.foldl ⟨nofun, nofun, nofun, nofun⟩ fun _ hc => hc

end LoadedPlugin

end KirkForge.Plugin
