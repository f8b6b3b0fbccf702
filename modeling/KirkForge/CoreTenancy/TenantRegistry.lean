import KirkForge.Theory.JoinPath
import KirkForge.Theory.OrderedMap
import KirkForge.Theory.Run
import KirkForge.Theory.Text

/-!
# The registry of tenants

`TenantRegistry` and `isSafeResourceName` (`core-tenancy/src/index.ts`), and registries on one
storage root: each loads the index when it is made and saves it after a change. The index is given
by the entries that `JSON.parse` makes of it.
-/

namespace KirkForge

structure TenantHandle where
  tenantId : String
  label : String
  workspacePath : String
  storageDir : String
  createdAt : String
  deriving DecidableEq

/-- The file `index.json`. -/
inductive IndexFile
  | missing
  | corrupt
  | entries (list : List TenantHandle)

/-- What the registries of one storage root are built on. -/
structure RegistryEnv where
  sha256Hex : String → String
  cwd : AbsPath
  storageRoot : String

abbrev TenantRegistry := OrderedMap String TenantHandle

def isSafeResourceName (name : String) : Bool :=
  if name = "" then false
  else if Text.includes name "\x00" then false
  else if Text.includes name "/" || Text.includes name "\\" then false
  else if name = ".." || Text.includes name ".." then false
  else if Text.startsWith name "/" then false
  else !Text.startsWith name "."

namespace TenantRegistry

variable (env : RegistryEnv)

/-- `_loadIndex` of a registry that is being made. -/
def loadIndex : IndexFile → TenantRegistry
  | .entries list => list.foldl (fun tenants entry => tenants.set entry.tenantId entry) ∅
  | _ => ∅

/-- What `_saveIndex` writes. -/
def index (tenants : TenantRegistry) : IndexFile := .entries (tenants.entries.map Prod.snd)

/-- The handle, the registry after the call, and whether the index is saved. -/
def register (workspacePath now : String) (tenants : TenantRegistry) :
    TenantHandle × TenantRegistry × Bool :=
  let abs := (env.cwd.resolve workspacePath).text
  let tenantId := Text.sliceTo (env.sha256Hex abs) 16
  match tenants.get? tenantId with
  | some existing => (existing, tenants, false)
  | none =>
    let handle : TenantHandle := {
      tenantId
      label := (Text.split '/' abs).getLastD abs
      workspacePath := abs
      storageDir := Path.join env.storageRoot tenantId
      createdAt := now }
    (handle, tenants.set tenantId handle, true)

def evictFromIndex (tenantId : String) (tenants : TenantRegistry) : TenantRegistry × Bool :=
  (tenants.delete tenantId, tenants.has tenantId)

/-- The directory of a tenant, registered or not. -/
def base (tenants : TenantRegistry) (tenantId : String) : String :=
  match tenants.get? tenantId with
  | some tenant => tenant.storageDir
  | none => Path.join env.storageRoot tenantId

def resolvePath (tenants : TenantRegistry) (tenantId resourceName : String) :
    Except String String :=
  if !isSafeResourceName resourceName then
    .error ("TenantRegistry.resolvePath: unsafe resource name \"" ++ resourceName ++ "\". " ++
      "Must be a single path segment without separators, dots, or null bytes. " ++
      "Use isSafeResourceName() to validate before calling resolvePath().")
  else .ok (Path.join (tenants.base env tenantId) resourceName)

end TenantRegistry

/-! ### Registries on one storage root -/

/-- What becomes of the index when it is saved. A failure goes unnoticed. -/
inductive SaveOutcome
  | written
  | failed
  /-- The file is left cut off. -/
  | torn

structure TenancyState where
  file : IndexFile := .missing
  registries : List TenantRegistry := []

inductive TenancyInput
  /-- A registry is made. -/
  | create
  | register (registry : Nat) (workspacePath now : String) (save : SaveOutcome)
  | evictFromIndex (registry : Nat) (tenantId : String) (save : SaveOutcome)

namespace TenancyState

open TenantRegistry

/-- A registry has changed, and saves its index if it does. -/
def change (s : TenancyState) (registry : Nat) (tenants : TenantRegistry) (saves : Bool) :
    SaveOutcome → TenancyState
  | .written =>
    { file := if saves then tenants.index else s.file
      registries := s.registries.set registry tenants }
  | .failed => { s with registries := s.registries.set registry tenants }
  | .torn =>
    { file := if saves then .corrupt else s.file
      registries := s.registries.set registry tenants }

def step (env : RegistryEnv) (s : TenancyState) : TenancyInput → TenancyState
  | .create => { s with registries := s.registries ++ [loadIndex s.file] }
  | .register registry workspacePath now save =>
    match s.registries[registry]? with
    | none => s
    | some tenants =>
      let r := tenants.register env workspacePath now
      s.change registry r.2.1 r.2.2 save
  | .evictFromIndex registry tenantId save =>
    match s.registries[registry]? with
    | none => s
    | some tenants =>
      let r := tenants.evictFromIndex tenantId
      s.change registry r.1 r.2 save

end TenancyState

end KirkForge
