import KirkForge.Theory.JsonRead
import KirkForge.Theory.Outcome
import KirkForge.Theory.Path

/-!
# Policies from files

The validator of `core-policy/src/index.ts` and `PolicyEngine.loadFromFile`. The validator looks at
the version and at which members are objects and arrays; everything else of a policy is what the
file has, or `none` where the file has nothing.
-/

namespace KirkForge

structure ToolPolicy where
  allowed : List Json
  denied : List Json
  maxConcurrent : Option Json
  deriving DecidableEq

structure ModelPolicy where
  allowed : List Json
  allowedProviders : List Json
  maxTokensPerRequest : Option Json
  deriving DecidableEq

structure WorkspaceRules where
  allowedRoots : List Json
  maxPathDepth : Option Json
  allowSymlinks : Option Json
  deriving DecidableEq

structure ExecutionPolicy where
  networkAllowed : Option Json
  maxRuntimeSeconds : Option Json
  maxMemoryMb : Option Json
  shellAllowed : Option Json
  allowedCommands : Option Json
  deriving DecidableEq

structure Policy where
  version : ℚ
  name : Option Json
  tools : ToolPolicy
  models : ModelPolicy
  workspaces : WorkspaceRules
  execution : ExecutionPolicy
  tenantOverrides : Option Json
  deriving DecidableEq

namespace Policy

/-! ### The validator -/

/-- A value that is neither missing nor `null` and of the type `object`. -/
def object (message : String) : Option Json → Except String Json
  | some (.arr items) => .ok (.arr items)
  | some (.obj fields) => .ok (.obj fields)
  | _ => .error message

def array (message : String) : Option Json → Except String (List Json)
  | some (.arr items) => .ok items
  | _ => .error message

def positiveNumber (message : String) : Option Json → Except String ℚ
  | some (.num q) => if q < 1 then .error message else .ok q
  | _ => .error message

/-! The sections of the validator. -/

def validateTools (value : Option Json) : Except String ToolPolicy :=
  object "Policy must have a 'tools' object" value >>= fun tools =>
  array "Policy tools.allowed must be an array" (tools.get? "allowed") >>= fun allowed =>
  array "Policy tools.denied must be an array" (tools.get? "denied") >>= fun denied =>
  .ok { allowed, denied, maxConcurrent := tools.get? "maxConcurrent" }

def validateModels (value : Option Json) : Except String ModelPolicy :=
  object "Policy must have a 'models' object" value >>= fun models =>
  array "Policy models.allowed must be an array" (models.get? "allowed") >>= fun allowed =>
  array "Policy models.allowedProviders must be an array" (models.get? "allowedProviders") >>=
    fun allowedProviders =>
  .ok { allowed, allowedProviders, maxTokensPerRequest := models.get? "maxTokensPerRequest" }

def validateWorkspaces (value : Option Json) : Except String WorkspaceRules :=
  object "Policy must have a 'workspaces' object" value >>= fun workspaces =>
  array "Policy workspaces.allowedRoots must be an array" (workspaces.get? "allowedRoots") >>=
    fun allowedRoots =>
  .ok {
    allowedRoots
    maxPathDepth := workspaces.get? "maxPathDepth"
    allowSymlinks := workspaces.get? "allowSymlinks" }

def validateExecution (value : Option Json) : Except String ExecutionPolicy :=
  object "Policy must have an 'execution' object" value >>= fun execution =>
  .ok {
    networkAllowed := execution.get? "networkAllowed"
    maxRuntimeSeconds := execution.get? "maxRuntimeSeconds"
    maxMemoryMb := execution.get? "maxMemoryMb"
    shellAllowed := execution.get? "shellAllowed"
    allowedCommands := execution.get? "allowedCommands" }

def validatePolicy (raw : Json) : Except String Policy :=
  object "Policy must be an object" (some raw) >>= fun p =>
  positiveNumber "Policy version must be a positive integer" (p.get? "version") >>= fun version =>
  validateTools (p.get? "tools") >>= fun tools =>
  validateModels (p.get? "models") >>= fun models =>
  validateWorkspaces (p.get? "workspaces") >>= fun workspaces =>
  validateExecution (p.get? "execution") >>= fun execution =>
  .ok {
    version
    name := p.get? "name"
    tools, models, workspaces, execution
    tenantOverrides := p.get? "tenantOverrides" }

/-! ### The object -/

/-- A member that is `none` is `undefined`. -/
def orUndefined (value : Option Json) : JsValue := (value.map JsValue.ofRead).getD .undefined

def members : List (String × Option Json) → JsMembers
  | [] => .nil
  | (key, value) :: rest => .cons key (orUndefined value) (members rest)

/-- The members that are there. -/
def fields : List (String × Option Json) → List (String × Json)
  | [] => []
  | (_, none) :: rest => fields rest
  | (key, some value) :: rest => (key, value) :: fields rest

end Policy

namespace ToolPolicy

def members (p : ToolPolicy) : List (String × Option Json) :=
  [("allowed", some (.arr p.allowed)), ("denied", some (.arr p.denied)),
    ("maxConcurrent", p.maxConcurrent)]

end ToolPolicy

namespace ModelPolicy

def members (p : ModelPolicy) : List (String × Option Json) :=
  [("allowed", some (.arr p.allowed)), ("allowedProviders", some (.arr p.allowedProviders)),
    ("maxTokensPerRequest", p.maxTokensPerRequest)]

end ModelPolicy

namespace WorkspaceRules

def members (p : WorkspaceRules) : List (String × Option Json) :=
  [("allowedRoots", some (.arr p.allowedRoots)), ("maxPathDepth", p.maxPathDepth),
    ("allowSymlinks", p.allowSymlinks)]

end WorkspaceRules

namespace ExecutionPolicy

def members (p : ExecutionPolicy) : List (String × Option Json) :=
  [("networkAllowed", p.networkAllowed), ("maxRuntimeSeconds", p.maxRuntimeSeconds),
    ("maxMemoryMb", p.maxMemoryMb), ("shellAllowed", p.shellAllowed),
    ("allowedCommands", p.allowedCommands)]

end ExecutionPolicy

namespace Policy

variable (p : Policy)

/-- The policy as an object of the program. -/
def value : JsValue :=
  .object <| .cons "version" (JsValue.ofRead (.num p.version)) <|
    .cons "name" (orUndefined p.name) <|
    .cons "tools" (.object (members p.tools.members)) <|
    .cons "models" (.object (members p.models.members)) <|
    .cons "workspaces" (.object (members p.workspaces.members)) <|
    .cons "execution" (.object (members p.execution.members)) <|
    .cons "tenantOverrides" (orUndefined p.tenantOverrides) .nil

def entries : List (String × Option Json) :=
  [("version", some (.num p.version)), ("name", p.name),
    ("tools", some (.obj (fields p.tools.members))),
    ("models", some (.obj (fields p.models.members))),
    ("workspaces", some (.obj (fields p.workspaces.members))),
    ("execution", some (.obj (fields p.execution.members))),
    ("tenantOverrides", p.tenantOverrides)]

/-- The policy as a value of a file. -/
def json : Json := .obj (fields p.entries)

/-- `JSON.stringify(policy)` -/
def text : String := String.ofList (JsValue.stringify p.json.written)

theorem membersToJson_members (l : List (String × Option Json)) :
    JsValue.membersToJson (members l) =
      Json.rebuildFields Json.writtenNumber id (fields l) := by
  induction l with
  | nil => rfl
  | cons e l ih =>
    obtain ⟨key, value⟩ := e
    cases value with
    | none =>
      simp only [members, fields, orUndefined, Option.map_none, Option.getD_none,
        JsValue.membersToJson, JsValue.toJson, ih]
    | some value =>
      simp only [members, fields, orUndefined, Option.map_some, Option.getD_some,
        JsValue.membersToJson, JsValue.toJson_ofRead, ih]
      rfl

theorem toJson_value : p.value.toJson = some p.json.written := by
  have hjson (o : Option Json) : JsValue.toJson (orUndefined o) = o.map Json.written := by
    cases o with
    | none => rfl
    | some j => exact JsValue.toJson_ofRead j
  simp only [value, json, entries, JsValue.toJson, JsValue.membersToJson, hjson,
    membersToJson_members, JsValue.toJson_ofRead]
  cases p.name <;> cases p.tenantOverrides <;> rfl

theorem lookup_fields {l : List (String × Option Json)} (h : (l.map Prod.fst).Nodup)
    (key : String) : OrderedMap.lookup key (fields l) = (OrderedMap.lookup key l).join := by
  induction l with
  | nil => rfl
  | cons e l ih =>
    obtain ⟨key', value⟩ := e
    obtain ⟨hkey, hl⟩ := List.nodup_cons.mp h
    by_cases heq : key' = key
    · subst heq
      cases value with
      | some value => simp [fields, OrderedMap.lookup]
      | none =>
        have hnone : OrderedMap.lookup key' l = none := OrderedMap.lookup_eq_none_iff.mpr hkey
        simp [fields, OrderedMap.lookup, ih hl, hnone]
    · cases value with
      | none => simp [fields, OrderedMap.lookup, heq, ih hl]
      | some value => simp [fields, OrderedMap.lookup, heq, ih hl]

theorem get?_fields {l : List (String × Option Json)} (h : (l.map Prod.fst).Nodup) (key : String) :
    (Json.obj (fields l)).get? key = (OrderedMap.lookup key l).join := lookup_fields h key

/-! Keys come in the order of the interfaces. -/

theorem ordered_tools (t : ToolPolicy) : Json.Ordered (t.members.map Prod.fst) := by
  have h : Json.Ordered ["allowed", "denied", "maxConcurrent"] := by decide
  exact h

theorem ordered_models (m : ModelPolicy) : Json.Ordered (m.members.map Prod.fst) := by
  have h : Json.Ordered ["allowed", "allowedProviders", "maxTokensPerRequest"] := by
    decide
  exact h

theorem ordered_workspaces (w : WorkspaceRules) : Json.Ordered (w.members.map Prod.fst) := by
  have h : Json.Ordered ["allowedRoots", "maxPathDepth", "allowSymlinks"] := by decide
  exact h

theorem ordered_execution (e : ExecutionPolicy) : Json.Ordered (e.members.map Prod.fst) := by
  have h : Json.Ordered ["networkAllowed", "maxRuntimeSeconds", "maxMemoryMb", "shellAllowed",
      "allowedCommands"] := by
    decide
  exact h

theorem ordered_entries : Json.Ordered (p.entries.map Prod.fst) := by
  have h : Json.Ordered ["version", "name", "tools", "models", "workspaces", "execution",
      "tenantOverrides"] := by
    decide
  exact h

theorem object_obj (message : String) (l : List (String × Json)) :
    object message (some (.obj l)) = .ok (.obj l) := rfl

theorem array_arr (message : String) (l : List Json) : array message (some (.arr l)) = .ok l := rfl

/-! The validator gives a policy back whose JSON it reads, section by section. -/

theorem validateTools_members (t : ToolPolicy) :
    validateTools (some (.obj (fields t.members))) = .ok t := by
  simp only [validateTools, object_obj, ExceptRules.ok_bind, get?_fields (ordered_tools t).1]
  simp [ToolPolicy.members, OrderedMap.lookup, array_arr, ExceptRules.ok_bind]

theorem validateModels_members (m : ModelPolicy) :
    validateModels (some (.obj (fields m.members))) = .ok m := by
  simp only [validateModels, object_obj, ExceptRules.ok_bind, get?_fields (ordered_models m).1]
  simp [ModelPolicy.members, OrderedMap.lookup, array_arr, ExceptRules.ok_bind]

theorem validateWorkspaces_members (w : WorkspaceRules) :
    validateWorkspaces (some (.obj (fields w.members))) = .ok w := by
  simp only [validateWorkspaces, object_obj, ExceptRules.ok_bind,
    get?_fields (ordered_workspaces w).1]
  simp [WorkspaceRules.members, OrderedMap.lookup, array_arr, ExceptRules.ok_bind]

theorem validateExecution_members (e : ExecutionPolicy) :
    validateExecution (some (.obj (fields e.members))) = .ok e := by
  simp only [validateExecution, object_obj, ExceptRules.ok_bind,
    get?_fields (ordered_execution e).1]
  simp [ExecutionPolicy.members, OrderedMap.lookup]

theorem validatePolicy_json (h : 1 ≤ p.version) : validatePolicy p.json = .ok p := by
  simp only [validatePolicy, json, object_obj, ExceptRules.ok_bind, get?_fields p.ordered_entries.1]
  simp [entries, OrderedMap.lookup, positiveNumber, not_lt.mpr h, ExceptRules.ok_bind,
    validateTools_members, validateModels_members, validateWorkspaces_members,
    validateExecution_members]

/-! ### What an accepted file says -/

theorem object_eq_ok {message : String} {value : Option Json} {v : Json}
    (h : object message value = .ok v) : value = some v := by
  rw [object.eq_def] at h
  split at h
  · exact congrArg some (Except.ok.inj h)
  · exact congrArg some (Except.ok.inj h)
  · cases h

theorem array_eq_ok {message : String} {value : Option Json} {items : List Json}
    (h : array message value = .ok items) : value = some (.arr items) := by
  rw [array.eq_def] at h
  split at h
  · rw [Except.ok.inj h]
  · cases h

theorem positiveNumber_eq_ok {message : String} {value : Option Json} {q : ℚ}
    (h : positiveNumber message value = .ok q) : value = some (.num q) ∧ 1 ≤ q := by
  rw [positiveNumber.eq_def] at h
  split at h
  · split at h
    · cases h
    · next hle =>
      obtain rfl := Except.ok.inj h
      exact ⟨rfl, not_lt.mp hle⟩
  · cases h

/-- The members are those of an object of the file. -/
def TakenFrom (value : Option Json) (l : List (String × Option Json)) : Prop :=
  ∃ v, value = some v ∧ ∀ e ∈ l, v.get? e.1 = e.2

section
variable {value : Option Json}

theorem takenFrom_tools {t : ToolPolicy} (h : validateTools value = .ok t) :
    TakenFrom value t.members := by
  obtain ⟨tools, htools, h⟩ := ExceptRules.bind_eq_ok.mp h
  obtain ⟨allowed, hallowed, h⟩ := ExceptRules.bind_eq_ok.mp h
  obtain ⟨denied, hdenied, h⟩ := ExceptRules.bind_eq_ok.mp h
  obtain rfl := Except.ok.inj h
  refine ⟨tools, object_eq_ok htools, ?_⟩
  simp [ToolPolicy.members, array_eq_ok hallowed, array_eq_ok hdenied]

theorem takenFrom_models {m : ModelPolicy} (h : validateModels value = .ok m) :
    TakenFrom value m.members := by
  obtain ⟨models, hmodels, h⟩ := ExceptRules.bind_eq_ok.mp h
  obtain ⟨allowed, hallowed, h⟩ := ExceptRules.bind_eq_ok.mp h
  obtain ⟨providers, hproviders, h⟩ := ExceptRules.bind_eq_ok.mp h
  obtain rfl := Except.ok.inj h
  refine ⟨models, object_eq_ok hmodels, ?_⟩
  simp [ModelPolicy.members, array_eq_ok hallowed, array_eq_ok hproviders]

theorem takenFrom_workspaces {w : WorkspaceRules} (h : validateWorkspaces value = .ok w) :
    TakenFrom value w.members := by
  obtain ⟨workspaces, hworkspaces, h⟩ := ExceptRules.bind_eq_ok.mp h
  obtain ⟨roots, hroots, h⟩ := ExceptRules.bind_eq_ok.mp h
  obtain rfl := Except.ok.inj h
  refine ⟨workspaces, object_eq_ok hworkspaces, ?_⟩
  simp [WorkspaceRules.members, array_eq_ok hroots]

theorem takenFrom_execution {e : ExecutionPolicy} (h : validateExecution value = .ok e) :
    TakenFrom value e.members := by
  obtain ⟨execution, hexecution, h⟩ := ExceptRules.bind_eq_ok.mp h
  obtain rfl := Except.ok.inj h
  refine ⟨execution, object_eq_ok hexecution, ?_⟩
  simp [ExecutionPolicy.members]

end

/-- The policy is what the file says. -/
structure ReadFrom (raw : Json) (p : Policy) : Prop where
  version : raw.get? "version" = some (.num p.version)
  positive : 1 ≤ p.version
  name : raw.get? "name" = p.name
  tools : TakenFrom (raw.get? "tools") p.tools.members
  models : TakenFrom (raw.get? "models") p.models.members
  workspaces : TakenFrom (raw.get? "workspaces") p.workspaces.members
  execution : TakenFrom (raw.get? "execution") p.execution.members
  tenantOverrides : raw.get? "tenantOverrides" = p.tenantOverrides

theorem readFrom_of_validatePolicy {raw : Json} {p : Policy} (h : validatePolicy raw = .ok p) :
    ReadFrom raw p := by
  obtain ⟨v, hv, h⟩ := ExceptRules.bind_eq_ok.mp h
  obtain ⟨version, hversion, h⟩ := ExceptRules.bind_eq_ok.mp h
  obtain ⟨tools, htools, h⟩ := ExceptRules.bind_eq_ok.mp h
  obtain ⟨models, hmodels, h⟩ := ExceptRules.bind_eq_ok.mp h
  obtain ⟨workspaces, hworkspaces, h⟩ := ExceptRules.bind_eq_ok.mp h
  obtain ⟨execution, hexecution, h⟩ := ExceptRules.bind_eq_ok.mp h
  obtain rfl := Except.ok.inj h
  obtain rfl := Option.some.inj (object_eq_ok hv)
  obtain ⟨hnumber, hpositive⟩ := positiveNumber_eq_ok hversion
  exact {
    version := hnumber
    positive := hpositive
    name := rfl
    tools := takenFrom_tools htools
    models := takenFrom_models hmodels
    workspaces := takenFrom_workspaces hworkspaces
    execution := takenFrom_execution hexecution
    tenantOverrides := rfl }

/-! What holds of the numbers and keys of a file holds of those of its policy. -/

section
variable {N : ℚ → Prop}

theorem all_fields {l : List (String × Option Json)} (hkeys : Json.Ordered (l.map Prod.fst))
    (h : ∀ e ∈ l, ∀ v ∈ e.2, v.All N Json.Ordered) :
    (Json.obj (fields l)).All N Json.Ordered := by
  have hsublist : ((fields l).map Prod.fst).Sublist (l.map Prod.fst) := by
    clear hkeys h
    induction l with
    | nil => exact List.Sublist.refl _
    | cons e l ih =>
      obtain ⟨key, value⟩ := e
      cases value with
      | none => exact ih.cons key
      | some value => exact ih.cons_cons key
  refine ⟨⟨hkeys.1.sublist hsublist, hkeys.2.sublist hsublist⟩, ?_⟩
  clear hkeys hsublist
  induction l with
  | nil => trivial
  | cons e l ih =>
    obtain ⟨key, value⟩ := e
    obtain ⟨hvalue, hl⟩ := List.forall_mem_cons.mp h
    cases value with
    | none => exact ih hl
    | some value => exact ⟨hvalue value rfl, ih hl⟩

theorem all_taken {value : Option Json} {l : List (String × Option Json)} (h : TakenFrom value l)
    (hkeys : Json.Ordered (l.map Prod.fst)) (hall : ∀ v ∈ value, v.All N Json.Ordered) :
    (Json.obj (fields l)).All N Json.Ordered := by
  obtain ⟨v, rfl, hmembers⟩ := h
  refine all_fields hkeys fun e he w hw => ?_
  rw [← hmembers e he] at hw
  exact Json.all_get? (hall v rfl) hw

theorem all_validatePolicy {raw : Json} {p : Policy} (h : validatePolicy raw = .ok p)
    (hall : raw.All N Json.Ordered) : p.json.All N Json.Ordered := by
  have hread := readFrom_of_validatePolicy h
  have hmember (key : String) : ∀ w ∈ raw.get? key, w.All N Json.Ordered := fun _ =>
    Json.all_get? hall
  have hnumber : N p.version := hmember _ _ hread.version
  refine all_fields p.ordered_entries ?_
  simp only [entries, List.forall_mem_cons, Option.mem_def, Option.some.injEq, forall_eq',
    ← hread.name, ← hread.tenantOverrides]
  exact ⟨hnumber, hmember _, all_taken hread.tools (ordered_tools _) (hmember _),
    all_taken hread.models (ordered_models _) (hmember _),
    all_taken hread.workspaces (ordered_workspaces _) (hmember _),
    all_taken hread.execution (ordered_execution _) (hmember _), hmember _, by simp⟩

end

end Policy

/-! ### The engine -/

/-- What is at the path of a policy file. -/
inductive PolicyFile
  | missing
  | unreadable (message : String)
  | text (raw : String)

structure PolicyLoadError where
  message : String
  cause : Option String := none
  deriving DecidableEq, Repr

/-- `DEFAULT_POLICY` -/
def Policy.default : Policy where
  version := 1
  name := some (.str "default-deny")
  tools := { allowed := [], denied := [], maxConcurrent := some (.num 4) }
  models := { allowed := [], allowedProviders := [], maxTokensPerRequest := none }
  workspaces := {
    allowedRoots := [], maxPathDepth := some (.num 10), allowSymlinks := some (.bool false) }
  execution := {
    networkAllowed := some (.bool false), maxRuntimeSeconds := some (.num 60)
    maxMemoryMb := some (.num 512), shellAllowed := some (.bool false)
    allowedCommands := some (.arr []) }
  tenantOverrides := none

/-- The default policy can be written and read back. -/
theorem Policy.all_default : Policy.default.json.All Json.IsFinite Json.Ordered := by
  simp only [default, json, entries, fields, ToolPolicy.members, ModelPolicy.members,
    WorkspaceRules.members, ExecutionPolicy.members, Json.All, Json.AllFields, Json.AllItems,
    and_true, true_and]
  decide +kernel

/-- The state of a `PolicyEngine`. -/
structure PolicyHolder where
  policy : Policy
  hash : String
  deriving DecidableEq

/-- The working directory, the files, SHA-256 of a text and the message of a `SyntaxError`. -/
structure PolicyHost where
  cwd : AbsPath
  file : AbsPath → PolicyFile
  computeHash : String → String
  syntaxError : String → String

namespace PolicyHolder

/-- `new PolicyEngine(initial)` -/
def new (computeHash : String → String) (initial : Option Policy) : PolicyHolder :=
  let policy := initial.getD .default
  { policy, hash := computeHash policy.text }

variable (host : PolicyHost) (engine : PolicyHolder)

/-- `getPolicy()` -/
def getPolicy : JsValue := engine.policy.value

/-- `getHash()` -/
def getHash : String := engine.hash

/-- `loadFromFile(filePath)`: the engine afterwards, and the result. -/
def loadFromFile (filePath : String) : PolicyHolder × Except PolicyLoadError Unit :=
  let abs := host.cwd.resolve filePath
  let failed (message : String) : PolicyHolder × Except PolicyLoadError Unit :=
    (engine, .error ⟨"Failed to load policy from " ++ abs.text, some message⟩)
  match host.file abs with
  | .missing => (engine, .error ⟨"Policy file not found: " ++ abs.text, none⟩)
  | .unreadable message => failed message
  | .text raw =>
    match Json.read raw with
    | none => failed (host.syntaxError raw)
    | some parsed =>
      match Policy.validatePolicy parsed with
      | .error message => (engine, .error ⟨"Invalid policy file: " ++ message, none⟩)
      | .ok validated => ({ policy := validated, hash := host.computeHash raw }, .ok ())

end PolicyHolder

end KirkForge
