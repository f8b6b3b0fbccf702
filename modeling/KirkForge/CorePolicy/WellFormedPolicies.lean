import KirkForge.CorePolicy.Enforcement

/-!
# Policies of the declared type

The validator takes most fields as they are. A policy that it accepts has the type of the interface
`Policy` if and only if the file has it, and then the checks keep to what the policy lists and
enables; workspaces need roots without siblings besides. A file that is rejected changes nothing.
-/

namespace KirkForge

/-! ### The interfaces -/

namespace Json

def isString : Json → Bool
  | str _ => true
  | null | bool _ | num _ | arr _ | obj _ => false

def isNumber : Json → Bool
  | num _ => true
  | null | bool _ | str _ | arr _ | obj _ => false

def isBoolean : Json → Bool
  | bool _ => true
  | null | num _ | str _ | arr _ | obj _ => false

def isStrings : Json → Bool
  | arr items => items.all isString
  | null | bool _ | num _ | str _ | obj _ => false

def isToolPolicy (v : Json) : Bool :=
  (v.get? "allowed").any isStrings && (v.get? "denied").any isStrings &&
    (v.get? "maxConcurrent").all isNumber

def isModelPolicy (v : Json) : Bool :=
  (v.get? "allowed").any isStrings && (v.get? "allowedProviders").any isStrings &&
    (v.get? "maxTokensPerRequest").all isNumber

def isWorkspacePolicy (v : Json) : Bool :=
  (v.get? "allowedRoots").any isStrings && (v.get? "maxPathDepth").all isNumber &&
    (v.get? "allowSymlinks").all isBoolean

def isExecutionPolicy (v : Json) : Bool :=
  (v.get? "networkAllowed").any isBoolean && (v.get? "maxRuntimeSeconds").all isNumber &&
    (v.get? "maxMemoryMb").all isNumber && (v.get? "shellAllowed").all isBoolean &&
      (v.get? "allowedCommands").all isStrings

/-- A member of a `Partial<Policy>` but for its overrides. -/
def isMember (key : String) (v : Json) : Bool :=
  match key with
  | "version" => v.isNumber
  | "hash" | "name" => v.isString
  | "tools" => v.isToolPolicy
  | "models" => v.isModelPolicy
  | "workspaces" => v.isWorkspacePolicy
  | "execution" => v.isExecutionPolicy
  | _ => true

mutual
/-- `Partial<Policy>` -/
def isPartialPolicy : Json → Bool
  | obj fields => areMembers fields
  | null | bool _ | num _ | str _ | arr _ => false

def areMembers : List (String × Json) → Bool
  | [] => true
  | (key, v) :: fields =>
    (if key = "tenantOverrides" then isOverrides v else isMember key v) && areMembers fields

/-- `Record<string, Partial<Policy>>` -/
def isOverrides : Json → Bool
  | obj tenants => arePartialPolicies tenants
  | null | bool _ | num _ | str _ | arr _ => false

def arePartialPolicies : List (String × Json) → Bool
  | [] => true
  | (_, v) :: tenants => isPartialPolicy v && arePartialPolicies tenants
end

/-- The fields that are taken over have the types of the interface `Policy`. -/
def isPolicy (raw : Json) : Bool :=
  (raw.get? "version").any isNumber && (raw.get? "name").all isString &&
    (raw.get? "tools").any isToolPolicy && (raw.get? "models").any isModelPolicy &&
      (raw.get? "workspaces").any isWorkspacePolicy &&
        (raw.get? "execution").any isExecutionPolicy &&
          (raw.get? "tenantOverrides").all isOverrides

def strings : Json → List String
  | arr items => items.filterMap str?
  | null | bool _ | num _ | str _ | obj _ => []

def number? : Json → Option JsNumber
  | num q => some (JsNumber.ofRead q)
  | null | bool _ | str _ | arr _ | obj _ => none

/-- The workspaces that a file is about. -/
def workspacePolicy (raw : Json) : WorkspacePolicy :=
  let field (key : String) : Option Json := (raw.get? "workspaces").bind (get? key)
  { allowedRoots := (field "allowedRoots").elim [] strings
    maxPathDepth := (field "maxPathDepth").bind number? }

end Json

def ToolPolicy.wellTyped (p : ToolPolicy) : Bool :=
  p.allowed.all Json.isString && p.denied.all Json.isString && p.maxConcurrent.all Json.isNumber

def ModelPolicy.wellTyped (p : ModelPolicy) : Bool :=
  p.allowed.all Json.isString && p.allowedProviders.all Json.isString &&
    p.maxTokensPerRequest.all Json.isNumber

def WorkspaceRules.wellTyped (p : WorkspaceRules) : Bool :=
  p.allowedRoots.all Json.isString && p.maxPathDepth.all Json.isNumber &&
    p.allowSymlinks.all Json.isBoolean

def ExecutionPolicy.wellTyped (p : ExecutionPolicy) : Bool :=
  p.networkAllowed.any Json.isBoolean && p.maxRuntimeSeconds.all Json.isNumber &&
    p.maxMemoryMb.all Json.isNumber && p.shellAllowed.all Json.isBoolean &&
      p.allowedCommands.all Json.isStrings

/-- Every field has the type that the interface declares. -/
def Policy.wellTyped (p : Policy) : Bool :=
  p.name.all Json.isString && p.tools.wellTyped && p.models.wellTyped && p.workspaces.wellTyped &&
    p.execution.wellTyped && p.tenantOverrides.all Json.isOverrides

/-! ### What the validator takes over -/

namespace Policy

section
variable {value : Option Json}

theorem wellTyped_tools {p : ToolPolicy} (h : TakenFrom value p.members) :
    value.any Json.isToolPolicy = p.wellTyped := by
  obtain ⟨v, rfl, hmembers⟩ := h
  simp only [ToolPolicy.members, List.forall_mem_cons] at hmembers
  obtain ⟨hallowed, hdenied, hconcurrent, -⟩ := hmembers
  rw [Option.any_some, Json.isToolPolicy, hallowed, hdenied, hconcurrent]
  rfl

theorem wellTyped_models {p : ModelPolicy} (h : TakenFrom value p.members) :
    value.any Json.isModelPolicy = p.wellTyped := by
  obtain ⟨v, rfl, hmembers⟩ := h
  simp only [ModelPolicy.members, List.forall_mem_cons] at hmembers
  obtain ⟨hallowed, hproviders, htokens, -⟩ := hmembers
  rw [Option.any_some, Json.isModelPolicy, hallowed, hproviders, htokens]
  rfl

theorem wellTyped_workspaces {p : WorkspaceRules} (h : TakenFrom value p.members) :
    value.any Json.isWorkspacePolicy = p.wellTyped := by
  obtain ⟨v, rfl, hmembers⟩ := h
  simp only [WorkspaceRules.members, List.forall_mem_cons] at hmembers
  obtain ⟨hroots, hdepth, hsymlinks, -⟩ := hmembers
  rw [Option.any_some, Json.isWorkspacePolicy, hroots, hdepth, hsymlinks]
  rfl

theorem wellTyped_execution {p : ExecutionPolicy} (h : TakenFrom value p.members) :
    value.any Json.isExecutionPolicy = p.wellTyped := by
  obtain ⟨v, rfl, hmembers⟩ := h
  simp only [ExecutionPolicy.members, List.forall_mem_cons] at hmembers
  obtain ⟨hnetwork, hruntime, hmemory, hshell, hcommands, -⟩ := hmembers
  rw [Option.any_some, Json.isExecutionPolicy, hnetwork, hruntime, hmemory, hshell, hcommands]
  rfl

end

/-- The policy has the declared type if and only if the file has it. -/
theorem wellTyped_eq_isPolicy {raw : Json} {p : Policy} (h : validatePolicy raw = .ok p) :
    p.wellTyped = raw.isPolicy := by
  have hread := readFrom_of_validatePolicy h
  rw [Json.isPolicy, hread.version, hread.name, wellTyped_tools hread.tools,
    wellTyped_models hread.models, wellTyped_workspaces hread.workspaces,
    wellTyped_execution hread.execution, hread.tenantOverrides]
  rfl

end Policy

/-! ### Workspaces -/

/-- The workspaces of a policy of the declared type. -/
def WorkspaceRules.policy (w : WorkspaceRules) : WorkspacePolicy where
  allowedRoots := w.allowedRoots.filterMap Json.str?
  maxPathDepth := w.maxPathDepth.bind Json.number?

theorem Policy.workspacePolicy_eq {raw : Json} {p : Policy} (h : validatePolicy raw = .ok p) :
    raw.workspacePolicy = p.workspaces.policy := by
  obtain ⟨v, hv, hmembers⟩ := (readFrom_of_validatePolicy h).workspaces
  simp only [WorkspaceRules.members, List.forall_mem_cons] at hmembers
  obtain ⟨hroots, hdepth, -⟩ := hmembers
  simp only [Json.workspacePolicy, hv, Option.bind_some, hroots, hdepth]
  rfl

theorem Json.exists_strings {items : List Json} (h : items.all isString = true) :
    items = (items.filterMap str?).map str := by
  induction items with
  | nil => rfl
  | cons item items ih =>
    rw [List.all_cons, Bool.and_eq_true] at h
    cases item with
    | str s => exact congrArg (str s :: ·) (ih h.2)
    | null | bool b | num q | arr l | obj fields => exact absurd h.1 Bool.false_ne_true

namespace PolicyHolder

theorem findRoot_map (engine : PolicyEngine) (abs : AbsPath) (roots : List String) :
    findRoot engine.cwd abs (roots.map Json.str) = some (roots.find? (engine.matchesRoot abs)) := by
  induction roots with
  | nil => rfl
  | cons root roots ih =>
    rw [List.map_cons, findRoot, List.find?_cons, ih, ← PolicyEngine.matchesRoot]
    cases engine.matchesRoot abs root <;> rfl

/-- On a policy of the declared type the check is the one of `PolicyEngine`, and does not throw. -/
theorem checkWorkspace_eq {engine : PolicyHolder} (h : engine.policy.workspaces.wellTyped = true)
    (cwd : AbsPath) (workspacePath : String) :
    engine.checkWorkspace cwd workspacePath =
      some (PolicyEngine.checkWorkspace ⟨engine.policy.workspaces.policy, engine.hash, cwd⟩
        workspacePath) := by
  simp only [WorkspaceRules.wellTyped, Bool.and_eq_true] at h
  obtain ⟨⟨hstrings, hdepth⟩, -⟩ := h
  obtain ⟨e, he⟩ : ∃ e : PolicyEngine,
      e = ⟨engine.policy.workspaces.policy, engine.hash, cwd⟩ := ⟨_, rfl⟩
  have hroots : engine.policy.workspaces.allowedRoots = e.workspaces.allowedRoots.map Json.str := by
    rw [he]
    exact Json.exists_strings hstrings
  have hlimit : e.workspaces.maxPathDepth =
      engine.policy.workspaces.maxPathDepth.bind Json.number? :=
    he ▸ rfl
  have hcwd : cwd = e.cwd := he ▸ rfl
  have hhash : engine.hash = e.hash := he ▸ rfl
  rw [← he]
  simp only [checkWorkspace, PolicyEngine.checkWorkspace, hroots, hcwd, hhash, findRoot_map,
    List.length_map, Option.bind_some]
  by_cases hnil : e.workspaces.allowedRoots.length = 0
  · rw [if_pos hnil, if_pos hnil]
  rw [if_neg hnil, if_neg hnil]
  rw [← List.isSome_find?]
  cases hfind : e.workspaces.allowedRoots.find? (e.matchesRoot (e.cwd.resolve workspacePath)) with
  | none => rfl
  | some root =>
    rw [hlimit]
    cases hfield : engine.policy.workspaces.maxPathDepth with
    | none => rfl
    | some limit =>
      rw [hfield] at hdepth
      cases limit with
      | num q =>
        simp only [Option.bind_some, Json.number?, Json.truthy_ofRead, Json.operand, Json.literal,
          Json.toText, Option.map_some, PolicyEngine.relDepth, Option.isSome_some, Bool.not_true,
          Bool.false_eq_true, if_false]
        by_cases hon : (!(Json.num q).truthy) = true
        · rw [if_pos hon, if_pos hon]
        rw [if_neg hon, if_neg hon]
        by_cases hempty : root = ""
        · rw [if_pos hempty, if_pos hempty]
        rw [if_neg hempty, if_neg hempty]
        exact (apply_ite some _ _ _).symm
      | null | bool b | str s | arr l | obj fields => exact absurd hdepth Bool.false_ne_true

/-! ### Execution -/

theorem exists_limitDecisions (engine : PolicyHolder) (rule name unit : String)
    (actual : Option JsNumber) {limit : Option Json} (h : limit.all Json.isNumber = true) :
    ∃ decisions, engine.limitDecisions rule name unit actual limit = some decisions := by
  cases actual with
  | none => exact ⟨[], rfl⟩
  | some actual =>
    cases limit with
    | none => exact ⟨[], rfl⟩
    | some limit =>
      cases limit with
      | num q =>
        simp only [limitDecisions, Json.operand, Json.literal, Json.toText, Option.bind_some,
          Option.map_some]
        split
        · split <;> exact ⟨_, rfl⟩
        · exact ⟨_, rfl⟩
      | null | bool b | str s | arr l | obj fields => exact absurd h Bool.false_ne_true

theorem exists_permits {commands : Option Json} (h : commands.all Json.isStrings = true)
    (command : String) : ∃ permitted, permits commands command = some permitted := by
  cases commands with
  | none => exact ⟨_, rfl⟩
  | some commands =>
    cases commands with
    | arr items => exact ⟨_, rfl⟩
    | null | bool b | num q | str s | obj fields => exact absurd h Bool.false_ne_true

/-- The execution check of a policy of the declared type does not throw. -/
theorem exists_checkExecution {engine : PolicyHolder}
    (h : engine.policy.execution.wellTyped = true) (params : ExecutionParams) :
    ∃ decisions, engine.checkExecution params = some decisions := by
  simp only [ExecutionPolicy.wellTyped, Bool.and_eq_true] at h
  obtain ⟨⟨⟨⟨-, hruntime⟩, hmemory⟩, -⟩, hcommands⟩ := h
  obtain ⟨runtime, hruntime⟩ := engine.exists_limitDecisions "execution_runtime_exceeded" "Runtime"
    "s" params.runtimeSeconds hruntime
  obtain ⟨memory, hmemory⟩ := engine.exists_limitDecisions "execution_memory_exceeded" "Memory"
    "MB" params.memoryMb hmemory
  have hcommand : ∃ command, engine.commandDecisions params.command = some command := by
    cases hparams : params.command with
    | none => exact ⟨_, rfl⟩
    | some command =>
      obtain ⟨permitted, hpermitted⟩ := exists_permits hcommands command
      simp only [commandDecisions, hpermitted, Option.map_some]
      split
      · exact ⟨_, rfl⟩
      · split <;> exact ⟨_, rfl⟩
  obtain ⟨command, hcommand⟩ := hcommand
  simp only [checkExecution, hruntime, hmemory, hcommand, Option.bind_some, Option.map_some]
  exact ⟨_, rfl⟩

/-- Where all decisions allow, nothing was refused on account of the network or the command. -/
theorem refusals_eq_nil {engine : PolicyHolder} {params : ExecutionParams}
    {decisions : List PolicyDecision} (h : engine.checkExecution params = some decisions)
    (hallowed : ∀ d ∈ decisions, d.allowed = true) :
    (params.networkRequired = some true → holds engine.policy.execution.networkAllowed = true) ∧
      ∃ refusals, engine.commandDecisions params.command = some refusals ∧
        ∀ d ∈ refusals, d.allowed = true := by
  obtain ⟨runtime, -, h⟩ := Option.bind_eq_some_iff.mp h
  obtain ⟨memory, -, h⟩ := Option.bind_eq_some_iff.mp h
  obtain ⟨command, hcommand, rfl⟩ := Option.map_eq_some_iff.mp h
  have hmem {l : List PolicyDecision} {x d : PolicyDecision} (hd : d ∈ l) :
      d ∈ if l.length > 0 then l else [x] := by
    rwa [if_pos (List.length_pos_of_mem hd)]
  refine ⟨fun hrequired => ?_, command, hcommand, fun d hd => ?_⟩
  · by_contra hoff
    have hrefused : params.networkRequired = some true ∧
        (!holds engine.policy.execution.networkAllowed) = true :=
      ⟨hrequired, by simpa using hoff⟩
    refine absurd (hallowed (deny "execution_network_denied"
      "Network egress is denied by policy" engine.hash) (hmem ?_)) Bool.false_ne_true
    rw [if_pos hrefused]
    simp
  · exact hallowed d (hmem (List.mem_append_right _ hd))

/-! ### The checks -/

/-- The checks come to decisions, and allow what the policy lists or enables. -/
structure Enforces (cwd : AbsPath) (engine : PolicyHolder) : Prop where
  workspace_decides : ∀ workspacePath,
    ∃ decision, engine.checkWorkspace cwd workspacePath = some decision
  execution_decides : ∀ params, ∃ decisions, engine.checkExecution params = some decisions
  tool_listed : ∀ toolName, (engine.checkTool toolName).allowed = true →
    Json.str toolName ∈ engine.policy.tools.allowed ∧
      Json.str toolName ∉ engine.policy.tools.denied
  model_listed : ∀ modelId providerKey, (engine.checkModel modelId providerKey).allowed = true →
    Json.str modelId ∈ engine.policy.models.allowed ∧
      ∀ key, providerKey = some key → key ≠ "" → engine.policy.models.allowedProviders ≠ [] →
        Json.str key ∈ engine.policy.models.allowedProviders
  network_enabled : ∀ params decisions, engine.checkExecution params = some decisions →
    (∀ d ∈ decisions, d.allowed = true) → params.networkRequired = some true →
      engine.policy.execution.networkAllowed = some (.bool true)
  command_enabled : ∀ params decisions command, engine.checkExecution params = some decisions →
    (∀ d ∈ decisions, d.allowed = true) → params.command = some command → command ≠ "" →
      engine.policy.execution.shellAllowed = some (.bool true) ∧
        ∀ commands, engine.policy.execution.allowedCommands = some (.arr commands) →
          commands ≠ [] → Json.str command ∈ commands

/-- A workspace is allowed only within a root that is listed. -/
def ListsWorkspaces (cwd : AbsPath) (engine : PolicyHolder) : Prop :=
  ∀ workspacePath decision, engine.checkWorkspace cwd workspacePath = some decision →
    decision.allowed = true → ∃ root, Json.str root ∈ engine.policy.workspaces.allowedRoots ∧
      (cwd.resolve root).Contains (cwd.resolve workspacePath)

theorem tool_listed {engine : PolicyHolder} {toolName : String}
    (h : (engine.checkTool toolName).allowed = true) :
    Json.str toolName ∈ engine.policy.tools.allowed ∧
      Json.str toolName ∉ engine.policy.tools.denied := by
  rw [checkTool] at h
  split at h
  · exact absurd h Bool.false_ne_true
  next hdenied =>
  split at h
  · exact absurd h Bool.false_ne_true
  split at h
  · exact absurd h Bool.false_ne_true
  next hlisted =>
  rw [Bool.not_eq_true', Bool.not_eq_false] at hlisted
  exact ⟨of_decide_eq_true hlisted, fun hmem => hdenied (decide_eq_true hmem)⟩

theorem model_listed {engine : PolicyHolder} {modelId : String} {providerKey : Option String}
    (h : (engine.checkModel modelId providerKey).allowed = true) :
    Json.str modelId ∈ engine.policy.models.allowed ∧
      ∀ key, providerKey = some key → key ≠ "" → engine.policy.models.allowedProviders ≠ [] →
        Json.str key ∈ engine.policy.models.allowedProviders := by
  simp only [checkModel] at h
  split at h
  · exact absurd h Bool.false_ne_true
  split at h
  · exact absurd h Bool.false_ne_true
  next hlisted =>
  rw [Bool.not_eq_true', Bool.not_eq_false] at hlisted
  refine ⟨of_decide_eq_true hlisted, ?_⟩
  rintro key rfl hkey hproviders
  dsimp only at h
  split at h
  · exact absurd h Bool.false_ne_true
  next hprovider =>
  by_contra hmem
  refine hprovider ⟨hkey, List.length_pos_iff.mpr hproviders, ?_⟩
  simpa [includes] using hmem

/-- The checks on a policy of the declared type. -/
theorem enforces_of_wellTyped {engine : PolicyHolder} (h : engine.policy.wellTyped = true)
    (cwd : AbsPath) : engine.Enforces cwd := by
  simp only [Policy.wellTyped, Bool.and_eq_true] at h
  obtain ⟨⟨⟨⟨⟨-, -⟩, -⟩, hworkspaces⟩, hexecution⟩, -⟩ := h
  have hfields := hexecution
  simp only [ExecutionPolicy.wellTyped, Bool.and_eq_true] at hfields
  obtain ⟨⟨⟨⟨hnetwork, -⟩, -⟩, hshell⟩, -⟩ := hfields
  have hbool {v : Option Json} (htype : v.all Json.isBoolean = true) (htrue : holds v = true) :
      v = some (.bool true) := by
    cases v with
    | none => exact absurd htrue Bool.false_ne_true
    | some v =>
      cases v with
      | bool b => rw [show b = true from htrue]
      | null | num q | str s | arr l | obj fields => exact absurd htype Bool.false_ne_true
  refine ⟨fun workspacePath => ⟨_, checkWorkspace_eq hworkspaces cwd workspacePath⟩,
    exists_checkExecution hexecution, fun _ => tool_listed, fun _ _ => model_listed,
    fun params decisions hcheck hallowed hrequired => ?_,
    fun params decisions command hcheck hallowed hcommand hname => ?_⟩
  · have htype : engine.policy.execution.networkAllowed.all Json.isBoolean = true := by
      cases hfield : engine.policy.execution.networkAllowed with
      | none => rfl
      | some v => rwa [hfield] at hnetwork
    exact hbool htype ((refusals_eq_nil hcheck hallowed).1 hrequired)
  · obtain ⟨-, refusals, hrefusals, hnone⟩ := refusals_eq_nil hcheck hallowed
    simp only [commandDecisions, hcommand, if_neg hname] at hrefusals
    split at hrefusals
    · obtain rfl := Option.some.inj hrefusals
      exact absurd (hnone _ (List.mem_singleton_self _)) Bool.false_ne_true
    next hshellOn =>
    rw [Bool.not_eq_true', Bool.not_eq_false] at hshellOn
    refine ⟨hbool hshell hshellOn, fun commands hcommands hne => ?_⟩
    obtain ⟨permitted, hpermitted, rfl⟩ := Option.map_eq_some_iff.mp hrefusals
    rw [hcommands, permits, Option.some.injEq] at hpermitted
    subst hpermitted
    by_contra hmem
    have hrefused : (decide (commands.length = 0) || includes commands command) = false := by
      simp [includes, hmem, hne]
    rw [hrefused] at hnone
    exact absurd (hnone _ (List.mem_singleton_self _)) Bool.false_ne_true

/-- A load that fails changes nothing. -/
theorem loadFromFile_eq_error {host : PolicyHost} {engine engine' : PolicyHolder}
    {filePath : String} {error : PolicyLoadError}
    (h : engine.loadFromFile host filePath = (engine', .error error)) : engine' = engine := by
  rw [loadFromFile] at h
  dsimp only at h
  split at h
  · exact (Prod.mk.inj h).1.symm
  · exact (Prod.mk.inj h).1.symm
  · split at h
    · exact (Prod.mk.inj h).1.symm
    · split at h
      · exact (Prod.mk.inj h).1.symm
      · cases (Prod.mk.inj h).2

/-- Workspaces of a policy of the declared type are listed if and only if its roots have no
siblings. -/
theorem listsWorkspaces_iff {engine : PolicyHolder} (h : engine.policy.wellTyped = true)
    (cwd : AbsPath) : engine.ListsWorkspaces cwd ↔
      (⟨engine.policy.workspaces.policy, engine.hash, cwd⟩ : PolicyEngine).Strict := by
  simp only [Policy.wellTyped, Bool.and_eq_true] at h
  obtain ⟨⟨⟨-, hworkspaces⟩, -⟩, -⟩ := h
  rw [← PolicyEngine.strict_iff]
  have hmem (root : String) : Json.str root ∈ engine.policy.workspaces.allowedRoots ↔
      root ∈ engine.policy.workspaces.policy.allowedRoots := by
    simp only [WorkspaceRules.wellTyped, Bool.and_eq_true] at hworkspaces
    rw [Json.exists_strings hworkspaces.1.1, List.mem_map_of_injective fun _ _ => Json.str.inj]
    rfl
  constructor
  · intro hlists workspacePath hallowed
    obtain ⟨root, hroot, hcontains⟩ := hlists workspacePath _
      (checkWorkspace_eq hworkspaces cwd workspacePath) hallowed
    exact ⟨root, (hmem root).mp hroot, hcontains⟩
  · intro hcovers workspacePath decision hcheck hallowed
    rw [checkWorkspace_eq hworkspaces, Option.some.injEq] at hcheck
    obtain ⟨root, hroot, hcontains⟩ := hcovers workspacePath (hcheck ▸ hallowed)
    exact ⟨root, (hmem root).mpr hroot, hcontains⟩

/-- For a file that the validator accepts: the policy has the declared type and the checks enforce
it if and only if the fields of the file have the declared types, and allowed workspaces are listed
besides if and only if the roots are strict. A file that is not accepted leaves the engine as it
is. -/
theorem validatePolicy_wellFormed_iff {raw : Json} {p : Policy}
    (hvalid : Policy.validatePolicy raw = .ok p) (hash : String) (cwd : AbsPath) :
    (p.wellTyped = true ∧ Enforces cwd ⟨p, hash⟩ ∧ ListsWorkspaces cwd ⟨p, hash⟩ ↔
      raw.isPolicy = true ∧ (⟨raw.workspacePolicy, hash, cwd⟩ : PolicyEngine).Strict) ∧
    (p.wellTyped = true ∧ Enforces cwd ⟨p, hash⟩ ↔ raw.isPolicy = true) ∧
    ∀ (host : PolicyHost) (engine engine' : PolicyHolder) (filePath : String)
      (error : PolicyLoadError),
      engine.loadFromFile host filePath = (engine', .error error) → engine' = engine := by
  rw [← Policy.wellTyped_eq_isPolicy hvalid, Policy.workspacePolicy_eq hvalid]
  refine ⟨?_, ?_, fun host engine engine' filePath error => loadFromFile_eq_error⟩
  · refine and_congr_right fun htyped => ?_
    rw [and_iff_right (@enforces_of_wellTyped ⟨p, hash⟩ htyped cwd)]
    exact @listsWorkspaces_iff ⟨p, hash⟩ htyped cwd
  · exact and_iff_left_of_imp fun htyped => @enforces_of_wellTyped ⟨p, hash⟩ htyped cwd

/-- A policy with an entry in each of its lists; the whole file system is its workspace. -/
private def listingPolicy : Policy :=
  { Policy.default with
    tools := { allowed := [.str "read_file"], denied := [.str "rm"], maxConcurrent := none }
    models := {
      allowed := [.str "qwen"], allowedProviders := [.str "local"], maxTokensPerRequest := none }
    workspaces := { Policy.default.workspaces with allowedRoots := [.str "/"] }
    execution := { Policy.default.execution with
      shellAllowed := some (.bool true), allowedCommands := some (.arr [.str "git"]) } }

/-- It is accepted and enforced. -/
theorem listingPolicy_wellFormed : listingPolicy.wellTyped = true ∧
    Enforces .root ⟨listingPolicy, "hash"⟩ ∧ ListsWorkspaces .root ⟨listingPolicy, "hash"⟩ := by
  have hvalid : Policy.validatePolicy listingPolicy.json = .ok listingPolicy :=
    Policy.validatePolicy_json _ (le_refl 1)
  have hroot : AbsPath.root.resolve "/" = .root := by decide
  exact (validatePolicy_wellFormed_iff hvalid "hash" .root).1.mpr
    ⟨by decide, .inr (.inl ⟨"/", List.mem_singleton_self _, hroot⟩)⟩

/-- The default policy with a text where the network is switched off. -/
private def mistypedPolicy : Policy :=
  { Policy.default with
    execution := { Policy.default.execution with networkAllowed := some (.str "false") } }

/-- It is accepted, and allows what it means to forbid. -/
theorem mistypedPolicy_admits_network :
    ¬∀ (raw : Json) (p : Policy) (hash : String) (cwd : AbsPath),
      Policy.validatePolicy raw = .ok p →
        p.wellTyped = true ∧ Enforces cwd ⟨p, hash⟩ ∧ ListsWorkspaces cwd ⟨p, hash⟩ := by
  intro h
  obtain ⟨-, henforces, -⟩ := h mistypedPolicy.json mistypedPolicy "hash" .root
    (Policy.validatePolicy_json _ (le_refl 1))
  have henabled := henforces.network_enabled { networkRequired := some true }
    [allow "execution_allowed" "Execution parameters within policy limits" "hash"] rfl
    (List.forall_mem_singleton.mpr rfl) rfl
  exact absurd henabled (by decide)

end PolicyHolder

end KirkForge
