import KirkForge.Theory.JsNumber
import KirkForge.Theory.Path
import KirkForge.Theory.Text
import Mathlib.Data.Fintype.EquivFin

/-!
# Sandbox constraints

The constraints of a sandbox, their merge with those of a tenant and the four checks made under them
(`core-sandbox/src/index.ts`). An empty list of hosts allows every host, an empty list of commands
or paths allows none: the merge treats an empty list of the base as one that allows everything.
-/

namespace KirkForge

/-- `SandboxConstraints`, every field of which may be left out. -/
structure SandboxConstraints where
  maxTimeMs : Option JsNumber := none
  maxMemoryMb : Option JsNumber := none
  maxCpuMs : Option JsNumber := none
  maxProcesses : Option JsNumber := none
  networkAllowed : Option Bool := none
  networkAllowlist : Option (List String) := none
  networkDenylist : Option (List String) := none
  shellAllowed : Option Bool := none
  allowedCommands : Option (List String) := none
  allowedReadPaths : Option (List String) := none
  allowedWritePaths : Option (List String) := none
  redactSecrets : Option Bool := none
  maxOutputBytes : Option JsNumber := none
  deriving DecidableEq

/-- `Required<SandboxConstraints>`. -/
structure RequiredConstraints where
  maxTimeMs : JsNumber
  maxMemoryMb : JsNumber
  maxCpuMs : JsNumber
  maxProcesses : JsNumber
  networkAllowed : Bool
  networkAllowlist : List String
  networkDenylist : List String
  shellAllowed : Bool
  allowedCommands : List String
  allowedReadPaths : List String
  allowedWritePaths : List String
  redactSecrets : Bool
  maxOutputBytes : JsNumber
  deriving DecidableEq

def DEFAULT_CONSTRAINTS : RequiredConstraints where
  maxTimeMs := 60000
  maxMemoryMb := 512
  maxCpuMs := 30000
  maxProcesses := 0
  networkAllowed := false
  networkAllowlist := []
  networkDenylist := []
  shellAllowed := false
  allowedCommands := []
  allowedReadPaths := []
  allowedWritePaths := []
  redactSecrets := true
  maxOutputBytes := 1048576

/-- The smaller of the base's limit and the tenant's, if the tenant has one. -/
def mergeLimit (base : JsNumber) (tenant : Option JsNumber) : JsNumber :=
  match tenant with
  | some limit => JsNumber.min base limit
  | none => base

/-- The entries of the tenant's list, if there is one, that the base has or that the base, having
none, does not restrict. -/
def mergeList (base : List String) (tenant : Option (List String)) : List String :=
  match tenant with
  | some list => list.filter fun e => e ∈ base || base.length = 0
  | none => base

def mergeConstraints (base : RequiredConstraints) (tenant : SandboxConstraints) :
    RequiredConstraints where
  maxTimeMs := mergeLimit base.maxTimeMs tenant.maxTimeMs
  maxMemoryMb := mergeLimit base.maxMemoryMb tenant.maxMemoryMb
  maxCpuMs := mergeLimit base.maxCpuMs tenant.maxCpuMs
  maxProcesses := mergeLimit base.maxProcesses tenant.maxProcesses
  networkAllowed := base.networkAllowed && tenant.networkAllowed.getD true
  networkAllowlist := mergeList base.networkAllowlist tenant.networkAllowlist
  networkDenylist := (base.networkDenylist ++ tenant.networkDenylist.getD []).eraseDups
  shellAllowed := base.shellAllowed && tenant.shellAllowed.getD true
  allowedCommands := mergeList base.allowedCommands tenant.allowedCommands
  allowedReadPaths := mergeList base.allowedReadPaths tenant.allowedReadPaths
  allowedWritePaths := mergeList base.allowedWritePaths tenant.allowedWritePaths
  redactSecrets := base.redactSecrets || tenant.redactSecrets.getD true
  maxOutputBytes := mergeLimit base.maxOutputBytes tenant.maxOutputBytes

/-! ### The checks -/

def isCommandAllowed (command : String) (constraints : RequiredConstraints) : Bool :=
  if !constraints.shellAllowed then false
  else if constraints.allowedCommands.length = 0 then false
  else command ∈ constraints.allowedCommands

def isNetworkDestinationAllowed (destination : String) (constraints : RequiredConstraints) : Bool :=
  if !constraints.networkAllowed then false
  else if destination ∈ constraints.networkDenylist then false
  else if constraints.networkAllowlist.length = 0 then true
  else destination ∈ constraints.networkAllowlist

/-- Whether a path is one of the allowed ones or below one. -/
def isPathAllowed (path : String) (allowedPaths : List String) : Bool :=
  if allowedPaths.length = 0 then false
  else
    let normalized := Path.normalize path
    allowedPaths.any fun allowed =>
      let normalizedAllowed := Path.normalize allowed
      normalized = normalizedAllowed ||
        (Text.startsWith normalized (normalizedAllowed ++ "/") && !Text.includes normalized "..")

def isReadPathAllowed (path : String) (constraints : RequiredConstraints) : Bool :=
  isPathAllowed path constraints.allowedReadPaths

def isWritePathAllowed (path : String) (constraints : RequiredConstraints) : Bool :=
  isPathAllowed path constraints.allowedWritePaths

def RequiredConstraints.limits (c : RequiredConstraints) : List JsNumber :=
  [c.maxTimeMs, c.maxMemoryMb, c.maxCpuMs, c.maxProcesses, c.maxOutputBytes]

def SandboxConstraints.limits (c : SandboxConstraints) : List (Option JsNumber) :=
  [c.maxTimeMs, c.maxMemoryMb, c.maxCpuMs, c.maxProcesses, c.maxOutputBytes]

/-- Whatever is allowed under `merged` is allowed under `base`, and no limit is larger. -/
structure Tightens (base merged : RequiredConstraints) : Prop where
  command : ∀ c, isCommandAllowed c merged = true → isCommandAllowed c base = true
  network : ∀ d, isNetworkDestinationAllowed d merged = true →
    isNetworkDestinationAllowed d base = true
  readPath : ∀ p, isReadPathAllowed p merged = true → isReadPathAllowed p base = true
  writePath : ∀ p, isWritePathAllowed p merged = true → isWritePathAllowed p base = true
  limits : List.Forall₂ (fun m b => JsNumber.le m b = true) merged.limits base.limits

/-- A tenant's list has entries where the base has none. -/
def ListsMore (base : List String) (tenant : Option (List String)) : Prop :=
  base = [] ∧ ∃ list, tenant = some list ∧ list ≠ []

/-- A tenant's list and the base's list of hosts have nothing in common. -/
def HostsDisjoint (base : List String) (tenant : Option (List String)) : Prop :=
  base ≠ [] ∧ ∃ list, tenant = some list ∧ ∀ e ∈ list, e ∉ base

/-- None of the inputs on which the merge loosens the base. -/
structure MergeSafe (base : RequiredConstraints) (tenant : SandboxConstraints) : Prop where
  commands : base.shellAllowed = true → tenant.shellAllowed ≠ some false →
    ¬ListsMore base.allowedCommands tenant.allowedCommands
  hosts : base.networkAllowed = true → tenant.networkAllowed ≠ some false →
    ¬HostsDisjoint base.networkAllowlist tenant.networkAllowlist
  readPaths : ¬ListsMore base.allowedReadPaths tenant.allowedReadPaths
  writePaths : ¬ListsMore base.allowedWritePaths tenant.allowedWritePaths
  baseLimits : JsNumber.nan ∉ base.limits
  tenantLimits : some JsNumber.nan ∉ tenant.limits

/-! ### Lists -/

theorem mem_mergeList {base : List String} {tenant : Option (List String)} {e : String}
    (h : e ∈ mergeList base tenant) : e ∈ base ∨ ListsMore base tenant := by
  cases tenant with
  | none => exact .inl h
  | some list =>
    obtain ⟨hlist, he⟩ := List.mem_filter.mp h
    rw [Bool.or_eq_true, decide_eq_true_eq, decide_eq_true_eq, List.length_eq_zero_iff] at he
    exact he.imp_right fun hbase => ⟨hbase, list, rfl, List.ne_nil_of_mem hlist⟩

/-- An entry of the tenant alone survives the merge with an empty list. -/
theorem ListsMore.exists_mem {base : List String} {tenant : Option (List String)}
    (h : ListsMore base tenant) : ∃ e, e ∈ mergeList base tenant := by
  obtain ⟨rfl, list, rfl, hne⟩ := h
  obtain ⟨e, he⟩ := List.exists_mem_of_ne_nil list hne
  exact ⟨e, List.mem_filter.mpr ⟨he, by simp⟩⟩

theorem mergeList_eq_nil_iff {base : List String} {tenant : Option (List String)}
    (hbase : base ≠ []) : mergeList base tenant = [] ↔ HostsDisjoint base tenant := by
  cases tenant with
  | none => simp [mergeList, HostsDisjoint, hbase]
  | some list => simp [mergeList, HostsDisjoint, hbase, List.filter_eq_nil_iff]

/-! ### Each check -/

theorem isCommandAllowed_iff {c : String} {k : RequiredConstraints} :
    isCommandAllowed c k = true ↔ k.shellAllowed = true ∧ c ∈ k.allowedCommands := by
  rw [isCommandAllowed]
  split
  · next h => simp_all
  · next h =>
    split
    · next hnil => simp [List.length_eq_zero_iff.mp hnil]
    · simp_all

theorem isNetworkDestinationAllowed_iff {d : String} {k : RequiredConstraints} :
    isNetworkDestinationAllowed d k = true ↔ k.networkAllowed = true ∧ d ∉ k.networkDenylist ∧
      (k.networkAllowlist = [] ∨ d ∈ k.networkAllowlist) := by
  rw [isNetworkDestinationAllowed]
  split
  · next h => simp_all
  · split
    · next h => simp [h]
    · split <;> simp_all

theorem isPathAllowed_mono {path : String} {paths paths' : List String}
    (hsub : ∀ p ∈ paths, p ∈ paths') (h : isPathAllowed path paths = true) :
    isPathAllowed path paths' = true := by
  rw [isPathAllowed] at h ⊢
  split at h
  · exact absurd h Bool.false_ne_true
  · obtain ⟨p, hp, hmatch⟩ := List.any_eq_true.mp h
    have hp' := hsub p hp
    rw [if_neg (by simp [List.ne_nil_of_mem hp'])]
    exact List.any_eq_true.mpr ⟨p, hp', hmatch⟩

/-- An allowed path is allowed itself. -/
theorem isPathAllowed_of_mem {path : String} {paths : List String} (h : path ∈ paths) :
    isPathAllowed path paths = true := by
  rw [isPathAllowed, if_neg (by simp [List.ne_nil_of_mem h])]
  exact List.any_eq_true.mpr ⟨path, h, by simp⟩

theorem isPathAllowed_nil (path : String) : isPathAllowed path [] = false := rfl

theorem merged_paths_iff {base : List String} {tenant : Option (List String)} :
    (∀ p, isPathAllowed p (mergeList base tenant) = true → isPathAllowed p base = true) ↔
      ¬ListsMore base tenant := by
  constructor
  · rintro h hmore
    obtain ⟨e, he⟩ := hmore.exists_mem
    have hbase := h e (isPathAllowed_of_mem he)
    rw [hmore.1, isPathAllowed_nil] at hbase
    exact Bool.false_ne_true hbase
  · intro h p
    exact isPathAllowed_mono fun e he => (mem_mergeList he).resolve_right h

theorem merged_commands_iff {base : RequiredConstraints} {tenant : SandboxConstraints} :
    (∀ c, isCommandAllowed c (mergeConstraints base tenant) = true →
        isCommandAllowed c base = true) ↔
      (base.shellAllowed = true → tenant.shellAllowed ≠ some false →
        ¬ListsMore base.allowedCommands tenant.allowedCommands) := by
  have hshell : (mergeConstraints base tenant).shellAllowed = true ↔
      base.shellAllowed = true ∧ tenant.shellAllowed ≠ some false := by
    rcases ht : tenant.shellAllowed with _ | b <;> simp [mergeConstraints, ht]
  simp only [isCommandAllowed_iff, hshell]
  constructor
  · intro h hb ht hmore
    obtain ⟨e, he⟩ := hmore.exists_mem
    have hbase := (h e ⟨⟨hb, ht⟩, he⟩).2
    rw [hmore.1] at hbase
    exact List.not_mem_nil hbase
  · rintro h c ⟨⟨hb, ht⟩, hc⟩
    exact ⟨hb, (mem_mergeList hc).resolve_right (h hb ht)⟩

theorem merged_hosts_iff {base : RequiredConstraints} {tenant : SandboxConstraints} :
    (∀ d, isNetworkDestinationAllowed d (mergeConstraints base tenant) = true →
        isNetworkDestinationAllowed d base = true) ↔
      (base.networkAllowed = true → tenant.networkAllowed ≠ some false →
        ¬HostsDisjoint base.networkAllowlist tenant.networkAllowlist) := by
  have hnetwork : (mergeConstraints base tenant).networkAllowed = true ↔
      base.networkAllowed = true ∧ tenant.networkAllowed ≠ some false := by
    rcases ht : tenant.networkAllowed with _ | b <;> simp [mergeConstraints, ht]
  simp only [isNetworkDestinationAllowed_iff, hnetwork]
  constructor
  · -- an empty merged list allows a host that neither list names
    rintro h hb ht hdisjoint
    obtain ⟨d, hd⟩ := Infinite.exists_notMem_finset
      (base.networkAllowlist ++ (mergeConstraints base tenant).networkDenylist).toFinset
    rw [List.mem_toFinset, List.mem_append, not_or] at hd
    have hnil := (mergeList_eq_nil_iff hdisjoint.1).mpr hdisjoint
    rcases (h d ⟨⟨hb, ht⟩, hd.2, .inl hnil⟩).2.2 with hbase | hbase
    · exact hdisjoint.1 hbase
    · exact hd.1 hbase
  · rintro h d ⟨⟨hb, ht⟩, hdeny, hallow⟩
    refine ⟨hb, fun hmem => hdeny ?_, ?_⟩
    · exact List.mem_eraseDups.mpr (List.mem_append_left _ hmem)
    · by_cases hbase : base.networkAllowlist = []
      · exact .inl hbase
      · refine .inr ?_
        rcases hallow with hnil | hmem
        · exact absurd ((mergeList_eq_nil_iff hbase).mp hnil) (h hb ht)
        · exact (mem_mergeList hmem).resolve_right fun hmore => hbase hmore.1

theorem mergeLimit_le_iff {base : JsNumber} {tenant : Option JsNumber} :
    JsNumber.le (mergeLimit base tenant) base = true ↔
      base ≠ JsNumber.nan ∧ tenant ≠ some JsNumber.nan := by
  cases tenant with
  | none =>
    exact ⟨fun h => ⟨(JsNumber.not_nan_of_le h).1, nofun⟩, fun h => JsNumber.le_refl h.1⟩
  | some limit => simp [mergeLimit, JsNumber.min_le_left_iff]

theorem merged_limits_iff {base : RequiredConstraints} {tenant : SandboxConstraints} :
    List.Forall₂ (fun m b => JsNumber.le m b = true) (mergeConstraints base tenant).limits
        base.limits ↔
      JsNumber.nan ∉ base.limits ∧ some JsNumber.nan ∉ tenant.limits := by
  simp only [RequiredConstraints.limits, SandboxConstraints.limits, mergeConstraints,
    List.forall₂_cons, List.Forall₂.nil, and_true, mergeLimit_le_iff, List.mem_cons, List.not_mem_nil,
    or_false, not_or, ne_eq, eq_comm (a := JsNumber.nan), eq_comm (a := some JsNumber.nan)]
  tauto

/-- The merge only tightens the base except on the inputs that `MergeSafe` names. -/
theorem mergeConstraints_tightens_iff (base : RequiredConstraints) (tenant : SandboxConstraints) :
    Tightens base (mergeConstraints base tenant) ↔ MergeSafe base tenant := by
  constructor
  · intro h
    obtain ⟨hbase, htenant⟩ := merged_limits_iff.mp h.limits
    exact ⟨merged_commands_iff.mp h.command, merged_hosts_iff.mp h.network,
      merged_paths_iff.mp h.readPath, merged_paths_iff.mp h.writePath, hbase, htenant⟩
  · intro h
    exact ⟨merged_commands_iff.mpr h.commands, merged_hosts_iff.mpr h.hosts,
      merged_paths_iff.mpr h.readPaths, merged_paths_iff.mpr h.writePaths,
      merged_limits_iff.mpr ⟨h.baseLimits, h.tenantLimits⟩⟩

/-- Two lists of hosts with nothing in common merge into one that allows every host. -/
theorem mergeConstraints_loosens :
    ¬∀ base tenant, Tightens base (mergeConstraints base tenant) := by
  intro h
  let base : RequiredConstraints :=
    { DEFAULT_CONSTRAINTS with networkAllowed := true, networkAllowlist := ["internal:443"] }
  have hevil := (h base { networkAllowlist := some ["tenant:443"] }).network "evil:443"
  revert hevil
  decide

end KirkForge
