import KirkForge.CoreEnterprise.Quotas
import KirkForge.Theory.JsValue

/-!
# Quotas on disk

`QuotaPersistence` (`core-enterprise/src/quota-persistence.ts`): the limits and counters of all
tenants in a JSON file, with a hash of the text. A state is here what `JSON.parse` makes of the text
that `JSON.stringify` has written: a number that is not finite has become `null`, and a member that
is `undefined` is not there.
-/

namespace KirkForge

/-- `createHash("sha256").update(content).digest("hex").slice(0, 24)` -/
structure QuotaEnv where
  computeHash : String → String

structure PersistedQuotaState where
  version : JsNumber
  /-- A limit is a number or `null`, or it is not there. -/
  quotas : List (String × TenantQuota (Option Limit))
  /-- A counter is a number, or else `null`. -/
  usage : List (String × QuotaUsage (Option JsNumber))
  lastSaved : String
  contentHash : String

inductive QuotaFile
  | missing
  /-- The file cannot be read, or it is not JSON of the right form. -/
  | malformed (message : String)
  | state (state : PersistedQuotaState)

/-- What JSON keeps of a limit. -/
def Limit.saved : Limit → Option Limit
  | undefined => none
  | null => some null
  | number (.finite q) => some (number (.finite q))
  | number _ => some null

/-- What JSON keeps of a counter. -/
def savedCounter : JsNumber → Option JsNumber
  | .finite q => some (.finite q)
  | _ => none

def TenantQuota.saved (quota : TenantQuota Limit) : TenantQuota (Option Limit) where
  maxConcurrentTasks := quota.maxConcurrentTasks.saved
  maxStorageMb := quota.maxStorageMb.saved
  maxObservations := quota.maxObservations.saved
  maxDailyTokens := quota.maxDailyTokens.saved
  maxToolInvocationsPerHour := quota.maxToolInvocationsPerHour.saved
  maxVerifyRunsPerHour := quota.maxVerifyRunsPerHour.saved
  maxCorrectionsPerHour := quota.maxCorrectionsPerHour.saved

def QuotaUsage.saved (usage : QuotaUsage JsNumber) : QuotaUsage (Option JsNumber) where
  concurrentTasks := savedCounter usage.concurrentTasks
  storageMb := savedCounter usage.storageMb
  observationCount := savedCounter usage.observationCount
  dailyTokens := savedCounter usage.dailyTokens
  hourlyToolInvocations := savedCounter usage.hourlyToolInvocations
  hourlyVerifyRuns := savedCounter usage.hourlyVerifyRuns
  hourlyCorrections := savedCounter usage.hourlyCorrections

namespace QuotaPersistence

/-! ### The text that is hashed -/

def numberJson : JsNumber → Json
  | .finite q => .num q
  | _ => .null

def limitJson : Limit → Json
  | .number x => numberJson x
  | _ => .null

def quotaJson (quota : TenantQuota (Option Limit)) : Json :=
  .obj <| [("maxConcurrentTasks", quota.maxConcurrentTasks),
    ("maxStorageMb", quota.maxStorageMb),
    ("maxObservations", quota.maxObservations),
    ("maxDailyTokens", quota.maxDailyTokens),
    ("maxToolInvocationsPerHour", quota.maxToolInvocationsPerHour),
    ("maxVerifyRunsPerHour", quota.maxVerifyRunsPerHour),
    ("maxCorrectionsPerHour", quota.maxCorrectionsPerHour)].filterMap fun member =>
      member.2.map fun limit => (member.1, limitJson limit)

def usageJson (usage : QuotaUsage (Option JsNumber)) : Json :=
  .obj <| [("concurrentTasks", usage.concurrentTasks),
    ("storageMb", usage.storageMb),
    ("observationCount", usage.observationCount),
    ("dailyTokens", usage.dailyTokens),
    ("hourlyToolInvocations", usage.hourlyToolInvocations),
    ("hourlyVerifyRuns", usage.hourlyVerifyRuns),
    ("hourlyCorrections", usage.hourlyCorrections)].map fun member =>
      (member.1, (member.2.map numberJson).getD .null)

/-- `JSON.stringify(content)` for a state without its hash. -/
def contentText (state : PersistedQuotaState) : String :=
  String.ofList <| JsValue.stringify <| .obj
    [("version", numberJson state.version),
      ("quotas", .obj (state.quotas.map fun e => (e.1, quotaJson e.2))),
      ("usage", .obj (state.usage.map fun e => (e.1, usageJson e.2))),
      ("lastSaved", .str state.lastSaved)]

/-! ### Saving and loading -/

/-- The loop of `save`: what is written for each tenant, and the manager, of which `getUsage` may
have set counters back. -/
def collect (now : Nat) (m : QuotaManager) : List String →
    QuotaManager × List (String × TenantQuota (Option Limit) × QuotaUsage (Option JsNumber))
  | [] => (m, [])
  | tenantId :: tenantIds =>
    let quota := m.getQuota tenantId
    let r := m.getUsage now tenantId
    let rest := collect now r.1 tenantIds
    -- the assignment of a member `__proto__` makes no member
    if tenantId = "__proto__" then rest
    else (rest.1, (tenantId, quota.saved, r.2.saved) :: rest.2)

/-- `save` at a time with the text `lastSaved`. -/
def save (env : QuotaEnv) (now : Nat) (lastSaved : String) (m : QuotaManager) :
    QuotaManager × PersistedQuotaState :=
  let r := collect now m m.listTenantIds
  let state : PersistedQuotaState :=
    { version := 1
      quotas := r.2.map fun e => (e.1, e.2.1)
      usage := r.2.map fun e => (e.1, e.2.2)
      lastSaved
      contentHash := "" }
  (r.1, { state with contentHash := env.computeHash (contentText state) })

def restoreQuotas (m : QuotaManager) (quotas : List (String × TenantQuota (Option Limit))) :
    QuotaManager :=
  quotas.foldl (fun m e => m.setQuota e.1 e.2) m

def restoreUsage (now : Nat) (m : QuotaManager)
    (usage : List (String × QuotaUsage (Option JsNumber))) : QuotaManager :=
  usage.foldl (fun m e => m.recordUsage now e.1 e.2) m

/-- `load`, with its error. -/
def load (env : QuotaEnv) (now : Nat) (file : QuotaFile) (m : QuotaManager) :
    QuotaManager × Option String :=
  match file with
  | .missing => (m, none)
  | .malformed message => (m, some ("Failed to load quota state: " ++ message))
  | .state state =>
    if state.version ≠ 1 then
      (m, some ("Unsupported quota persistence version: " ++ state.version.text))
    else if state.contentHash ≠ env.computeHash (contentText state) then
      (m, some "Quota persistence file integrity check failed. Content may be corrupted.")
    else (restoreUsage now (restoreQuotas m state.quotas) state.usage, none)

end QuotaPersistence

end KirkForge
