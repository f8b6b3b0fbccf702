import KirkForge.Theory.JsNumber
import KirkForge.Theory.OrderedMap

/-!
# Quotas of tenants

`QuotaManager` (`core-enterprise/src/quotas.ts`): limits and usage counters for each tenant, where
the counters of an hour or a day are set back when the clock has passed into another one. Every
operation reads the clock once, in milliseconds.
-/

namespace KirkForge

inductive QuotaAction
  | concurrentTask | storage | observation | tokenSpend | toolInvocation | verifyRun | correction
  deriving DecidableEq, Repr

/-- The limits of a tenant. -/
structure TenantQuota (α : Type) where
  maxConcurrentTasks : α
  maxStorageMb : α
  maxObservations : α
  maxDailyTokens : α
  maxToolInvocationsPerHour : α
  maxVerifyRunsPerHour : α
  maxCorrectionsPerHour : α

/-- The counters of a tenant. -/
structure QuotaUsage (α : Type) where
  concurrentTasks : α
  storageMb : α
  observationCount : α
  dailyTokens : α
  hourlyToolInvocations : α
  hourlyVerifyRuns : α
  hourlyCorrections : α

/-- A limit as it is stored: a number, `undefined` where one was handed over, or `null` where a
number that JSON does not have was read back. -/
inductive Limit
  | undefined
  | null
  | number (x : JsNumber)
  deriving DecidableEq, Repr

structure QuotaExceededError where
  quota : String
  limit : Limit
  current : JsNumber
  deriving DecidableEq, Repr

/-- The limit of an action. -/
def TenantQuota.limit {α : Type} (quota : TenantQuota α) : QuotaAction → α
  | .concurrentTask => quota.maxConcurrentTasks
  | .storage => quota.maxStorageMb
  | .observation => quota.maxObservations
  | .tokenSpend => quota.maxDailyTokens
  | .toolInvocation => quota.maxToolInvocationsPerHour
  | .verifyRun => quota.maxVerifyRunsPerHour
  | .correction => quota.maxCorrectionsPerHour

/-- The counter of an action. -/
def QuotaUsage.counter {α : Type} (usage : QuotaUsage α) : QuotaAction → α
  | .concurrentTask => usage.concurrentTasks
  | .storage => usage.storageMb
  | .observation => usage.observationCount
  | .tokenSpend => usage.dailyTokens
  | .toolInvocation => usage.hourlyToolInvocations
  | .verifyRun => usage.hourlyVerifyRuns
  | .correction => usage.hourlyCorrections

/-- The name of an action's limit in an error. -/
def QuotaAction.quotaName : QuotaAction → String
  | concurrentTask => "maxConcurrentTasks"
  | storage => "maxStorageMb"
  | observation => "maxObservations"
  | tokenSpend => "maxDailyTokens"
  | toolInvocation => "maxToolInvocationsPerHour"
  | verifyRun => "maxVerifyRunsPerHour"
  | correction => "maxCorrectionsPerHour"

/-- The counter belongs to an hour. -/
def QuotaAction.isHourly : QuotaAction → Bool
  | toolInvocation | verifyRun | correction => true
  | _ => false

/-- The counter belongs to a day. -/
def QuotaAction.isDaily : QuotaAction → Bool
  | tokenSpend => true
  | _ => false

def DEFAULT_QUOTA : TenantQuota Limit where
  maxConcurrentTasks := .number 4
  maxStorageMb := .number 1024
  maxObservations := .number 10000
  maxDailyTokens := .number 1000000
  maxToolInvocationsPerHour := .number 1000
  maxVerifyRunsPerHour := .number 500
  maxCorrectionsPerHour := .number 200

/-- `{ ...quota, ...other }`, where `none` is a member that `other` does not have. -/
def TenantQuota.spread (quota : TenantQuota Limit) (other : TenantQuota (Option Limit)) :
    TenantQuota Limit where
  maxConcurrentTasks := other.maxConcurrentTasks.getD quota.maxConcurrentTasks
  maxStorageMb := other.maxStorageMb.getD quota.maxStorageMb
  maxObservations := other.maxObservations.getD quota.maxObservations
  maxDailyTokens := other.maxDailyTokens.getD quota.maxDailyTokens
  maxToolInvocationsPerHour :=
    other.maxToolInvocationsPerHour.getD quota.maxToolInvocationsPerHour
  maxVerifyRunsPerHour := other.maxVerifyRunsPerHour.getD quota.maxVerifyRunsPerHour
  maxCorrectionsPerHour := other.maxCorrectionsPerHour.getD quota.maxCorrectionsPerHour

namespace QuotaUsage

def zero : QuotaUsage JsNumber := ⟨0, 0, 0, 0, 0, 0, 0⟩

/-- The counters after `delta`, where `none` is a member that is missing or `null`. -/
def add (current : QuotaUsage JsNumber) (delta : QuotaUsage (Option JsNumber)) :
    QuotaUsage JsNumber where
  concurrentTasks := current.concurrentTasks + delta.concurrentTasks.getD 0
  storageMb := current.storageMb + delta.storageMb.getD 0
  observationCount := current.observationCount + delta.observationCount.getD 0
  dailyTokens := current.dailyTokens + delta.dailyTokens.getD 0
  hourlyToolInvocations := current.hourlyToolInvocations + delta.hourlyToolInvocations.getD 0
  hourlyVerifyRuns := current.hourlyVerifyRuns + delta.hourlyVerifyRuns.getD 0
  hourlyCorrections := current.hourlyCorrections + delta.hourlyCorrections.getD 0

def resetHourly (current : QuotaUsage JsNumber) : QuotaUsage JsNumber :=
  { current with hourlyToolInvocations := 0, hourlyVerifyRuns := 0, hourlyCorrections := 0 }

def resetDaily (current : QuotaUsage JsNumber) : QuotaUsage JsNumber :=
  { current with dailyTokens := 0 }

end QuotaUsage

/-- The number that a limit is compared as. -/
def Limit.value : Limit → JsNumber
  | undefined => .nan
  | null => 0
  | number x => x

structure QuotaManager where
  quotas : OrderedMap String (TenantQuota Limit) := ∅
  usage : OrderedMap String (QuotaUsage JsNumber) := ∅
  defaultQuota : TenantQuota Limit
  lastHourBoundary : OrderedMap String Nat := ∅
  lastDayBoundary : OrderedMap String Nat := ∅

namespace QuotaManager

def hourOf (now : Nat) : Nat := now / 3600000

def dayOf (now : Nat) : Nat := now / 86400000

def create (defaultQuota : TenantQuota (Option Limit)) : QuotaManager where
  defaultQuota := DEFAULT_QUOTA.spread defaultQuota

def setQuota (tenantId : String) (quota : TenantQuota (Option Limit)) (m : QuotaManager) :
    QuotaManager :=
  { m with quotas := m.quotas.set tenantId (DEFAULT_QUOTA.spread quota) }

def getQuota (tenantId : String) (m : QuotaManager) : TenantQuota Limit :=
  (m.quotas.get? tenantId).getD m.defaultQuota

/-- Set counters of a tenant back, if it has any. -/
def resetCounters (reset : QuotaUsage JsNumber → QuotaUsage JsNumber) (tenantId : String)
    (usage : OrderedMap String (QuotaUsage JsNumber)) :
    OrderedMap String (QuotaUsage JsNumber) :=
  match usage.get? tenantId with
  | none => usage
  | some current => usage.set tenantId (reset current)

def resetHourly (tenantId : String) (m : QuotaManager) : QuotaManager :=
  { m with usage := resetCounters QuotaUsage.resetHourly tenantId m.usage }

def resetDaily (tenantId : String) (m : QuotaManager) : QuotaManager :=
  { m with usage := resetCounters QuotaUsage.resetDaily tenantId m.usage }

/-- One half of `_autoResetIfStale`: the counters and the last boundaries when the hour or the day
is `current`. -/
def enterPeriod (reset : QuotaUsage JsNumber → QuotaUsage JsNumber) (current : Nat)
    (tenantId : String) (lastBoundary : OrderedMap String Nat)
    (usage : OrderedMap String (QuotaUsage JsNumber)) :
    OrderedMap String (QuotaUsage JsNumber) × OrderedMap String Nat :=
  match lastBoundary.get? tenantId with
  | none => (usage, lastBoundary.set tenantId current)
  | some last =>
    if current > last then
      (resetCounters reset tenantId usage, lastBoundary.set tenantId current)
    else (usage, lastBoundary)

def autoResetIfStale (now : Nat) (tenantId : String) (m : QuotaManager) : QuotaManager :=
  let hour := enterPeriod .resetHourly (hourOf now) tenantId m.lastHourBoundary m.usage
  let day := enterPeriod .resetDaily (dayOf now) tenantId m.lastDayBoundary hour.1
  { m with usage := day.1, lastHourBoundary := hour.2, lastDayBoundary := day.2 }

def getUsage (now : Nat) (tenantId : String) (m : QuotaManager) :
    QuotaManager × QuotaUsage JsNumber :=
  let m := m.autoResetIfStale now tenantId
  (m, (m.usage.get? tenantId).getD .zero)

/-- The error is `none` if the tenant may perform the action. -/
def checkQuota (now : Nat) (tenantId : String) (action : QuotaAction) (m : QuotaManager) :
    QuotaManager × Option QuotaExceededError :=
  let m := m.autoResetIfStale now tenantId
  let limit := (m.getQuota tenantId).limit action
  let current := ((m.usage.get? tenantId).getD .zero).counter action
  (m, if JsNumber.le limit.value current then some ⟨action.quotaName, limit, current⟩ else none)

def recordUsage (now : Nat) (tenantId : String) (delta : QuotaUsage (Option JsNumber))
    (m : QuotaManager) : QuotaManager :=
  let r := m.getUsage now tenantId
  { r.1 with usage := r.1.usage.set tenantId (r.2.add delta) }

def removeTenant (tenantId : String) (m : QuotaManager) : QuotaManager where
  quotas := m.quotas.delete tenantId
  usage := m.usage.delete tenantId
  defaultQuota := m.defaultQuota
  lastHourBoundary := m.lastHourBoundary.delete tenantId
  lastDayBoundary := m.lastDayBoundary.delete tenantId

/-- The tenants with limits of their own or with counters. -/
def listTenantIds (m : QuotaManager) : List String :=
  m.quotas.keys ++ m.usage.keys.filter (· ∉ m.quotas.keys)

end QuotaManager

/-! ### Managers over time -/

inductive QuotaInput
  | setQuota (tenantId : String) (quota : TenantQuota (Option Limit))
  | getUsage (tenantId : String)
  | checkQuota (tenantId : String) (action : QuotaAction)
  | recordUsage (tenantId : String) (delta : QuotaUsage (Option JsNumber))
  | resetHourly (tenantId : String)
  | resetDaily (tenantId : String)
  | removeTenant (tenantId : String)

/-- A manager and the time of the last call. -/
structure QuotaState where
  now : Nat
  manager : QuotaManager

namespace QuotaState

/-- A call after some time has passed. -/
def step (s : QuotaState) (call : Nat × QuotaInput) : QuotaState :=
  let now := s.now + call.1
  { now
    manager :=
      match call.2 with
      | .setQuota tenantId quota => s.manager.setQuota tenantId quota
      | .getUsage tenantId => (s.manager.getUsage now tenantId).1
      | .checkQuota tenantId action => (s.manager.checkQuota now tenantId action).1
      | .recordUsage tenantId delta => s.manager.recordUsage now tenantId delta
      | .resetHourly tenantId => s.manager.resetHourly tenantId
      | .resetDaily tenantId => s.manager.resetDaily tenantId
      | .removeTenant tenantId => s.manager.removeTenant tenantId }

end QuotaState

end KirkForge
