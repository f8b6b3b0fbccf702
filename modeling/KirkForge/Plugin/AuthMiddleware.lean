import KirkForge.CoreEvents.AuditEvent
import KirkForge.CoreRbac.JwtVerify
import KirkForge.CoreSandbox.Runner
import KirkForge.Orchestrator.HealthServer
import KirkForge.Plugin.GroupRoleMapping
import KirkForge.Theory.Run

/-!
# The authentication middleware

`AuthMiddleware` and `createAuthMiddleware` (`plugin/src/auth-middleware.ts`), with
`authorizeTenant` of `core-rbac/src/index.ts` and the `AuditLogger` of
`core-events/src/audit-logger.ts`. Every use of the middleware is a process: `authenticate` waits
for the library that verifies tokens, and the function that `requirePermission` makes waits for it
and then for the handler, while others share the counters and the logger. A call that nothing
interrupts lets in whom the health server lets in (`resolveActor_agrees`).
-/

namespace KirkForge

/-! ### Decisions -/

def AuthMethod.text : AuthMethod → String
  | oidc => "oidc"
  | apiKey => "api_key"
  | internal => "internal"

def authorizeTenant (actor : Actor) (permission : Permission) (targetTenantId : String) :
    Except AuthError Unit :=
  if actor.role ≠ .admin ∧ actor.tenantId ≠ targetTenantId then
    .error
      { code := "FORBIDDEN"
        message := "Actor \"" ++ actor.id ++ "\" (role=" ++ actor.role.name ++ ", tenant=" ++
          actor.tenantId ++ ") cannot access tenant \"" ++ targetTenantId ++ "\"" }
  else authorize actor permission

/-- What `authorize` and `authorizeTenant` tell their hook. -/
structure AuthDecision where
  granted : Bool
  actorId : String
  role : Role
  permission : Permission
  targetTenantId : Option String
  actorTenantId : String
  reason : String

/-- What the hook is told along with a result. -/
def AuthDecision.of (actor : Actor) (permission : Permission) (targetTenantId : Option String)
    (result : Except AuthError Unit) : AuthDecision where
  granted := result.isOk
  actorId := actor.id
  role := actor.role
  permission
  targetTenantId
  actorTenantId := actor.tenantId
  reason :=
    match result with
    | .ok () => ""
    | .error e => e.message

/-! ### The audit logger -/

/-- The argument of `AuditLogger.record`. -/
structure AuditParams where
  action : AuditAction
  outcome : AuditOutcome
  actorId : String
  tenantId : String
  reason : String
  policyHash : Option String := none
  traceId : Option String := none
  metadata : Option JsMembers := none

/-- The argument without texts that are empty, which leave no member in the event. -/
def AuditParams.kept (params : AuditParams) : AuditParams :=
  { params with
    policyHash := params.policyHash.filter (· ≠ "")
    traceId := params.traceId.filter (· ≠ "") }

/-- The argument with which an event has been recorded. -/
def AuditEvent.params (event : AuditEvent) : AuditParams where
  action := event.action
  outcome := event.outcome
  actorId := event.actorId
  tenantId := event.tenantId
  reason := event.reason
  policyHash := event.policyHash
  traceId := event.traceId
  metadata := event.metadata

structure AuditLogger where
  sequence : Nat := 0
  /-- The events that the sink has been handed, in order. -/
  written : List AuditEvent := []

/-- `AuditLogger.record` up to the call of the sink. -/
def AuditLogger.record (now : Int) (timestamp : String) (params : AuditParams)
    (logger : AuditLogger) : AuditLogger where
  sequence := logger.sequence + 1
  written := logger.written ++ [
    { id := "audit-" ++ toString now ++ "-" ++ toString logger.sequence
      sequence := some (.finite (logger.sequence + 1 : Nat))
      timestamp
      action := params.action
      outcome := params.outcome
      actorId := params.actorId
      tenantId := params.tenantId
      reason := params.reason
      policyHash := params.kept.policyHash
      traceId := params.kept.traceId
      metadata := params.metadata }]

/-! ### The middleware -/

structure AuthMiddlewareError where
  statusCode : Nat
  authMethod : String
  reason : String
  deriving DecidableEq

structure AuthenticatedRequest where
  actor : Actor
  authMethod : AuthMethod
  tokenId : String
  deriving DecidableEq

/-- The refusals of `authenticate`. -/
inductive AuthFailure
  | notConfigured | missingToken | jwtFailedNoFallback | invalidKey | invalidJwt
  deriving DecidableEq, Repr

namespace AuthFailure

def error : AuthFailure → AuthMiddlewareError
  | notConfigured => ⟨500, "none", "Auth is required but no provider is configured"⟩
  | missingToken => ⟨401, "none", "Missing Bearer token"⟩
  | jwtFailedNoFallback =>
    ⟨401, "oidc", "JWT validation failed and API key fallback is not enabled"⟩
  | invalidKey => ⟨401, "api_key", "Invalid API key"⟩
  | invalidJwt => ⟨401, "oidc", "Invalid JWT token"⟩

/-- The method under which the refusal is recorded. -/
def method : AuthFailure → String
  | notConfigured | missingToken => "none"
  | jwtFailedNoFallback | invalidJwt => "oidc"
  | invalidKey => "api_key"

def failureReason : AuthFailure → String
  | notConfigured => "auth_required_but_not_configured"
  | missingToken => "missing_token"
  | jwtFailedNoFallback => "jwt_failed_no_fallback"
  | invalidKey => "invalid_key"
  | invalidJwt => "invalid_jwt"

end AuthFailure

structure AuthMiddlewareConfig where
  oidcConfig : Option OidcConfig := none
  apiKey : Option String := none
  groupRoleMapping : Option GroupRoleMapping := none
  requireAuth : Option Bool := none
  allowApiKeyFallbackWithOidc : Option Bool := none

/-- The fields that stay as the constructor sets them. -/
structure AuthMiddleware where
  oidcConfig : Option OidcConfig
  apiKey : Option String
  groupRoleMapping : Option GroupRoleMapping
  requireAuth : Bool
  allowApiKeyFallbackWithOidc : Bool

namespace AuthMiddleware

def ofConfig (config : AuthMiddlewareConfig) : AuthMiddleware where
  oidcConfig := config.oidcConfig
  apiKey := config.apiKey
  groupRoleMapping := config.groupRoleMapping
  requireAuth := config.requireAuth.getD false
  allowApiKeyFallbackWithOidc := config.allowApiKeyFallbackWithOidc.getD false

/-- The logger, if there is one, and the counters. -/
structure State where
  auditLogger : Option AuditLogger := none
  authSuccessCount : Nat := 0
  authFailureCount : Nat := 0
  permissionDenyCount : Nat := 0

/-- Metadata whose values are texts. -/
def metadata : List (String × String) → JsMembers
  | [] => .nil
  | (key, value) :: fields => .cons key (.string value) (metadata fields)

/-- The record of a decision (`_createAuditHook`). -/
def decisionParams (actor : Actor) (decision : AuthDecision) : AuditParams where
  action := if decision.granted then .authSuccess else .authFailure
  outcome := if decision.granted then .success else .deny
  actorId := decision.actorId
  tenantId := decision.targetTenantId.getD decision.actorTenantId
  reason :=
    if decision.reason ≠ "" then decision.reason
    else if decision.granted then "Permission granted" else "Permission denied"
  metadata := some (metadata
    [("role", decision.role.name), ("permission", decision.permission.name),
      ("authMethod", actor.authMethod.text)])

def successParams (actorId tenantId : String) (method : AuthMethod) : AuditParams where
  action := .authSuccess
  outcome := .success
  actorId
  tenantId
  reason := method.text ++ " authentication successful"
  metadata := some (metadata [("authMethod", method.text)])

def failureParams (failure : AuthFailure) : AuditParams where
  action := .authFailure
  outcome := .deny
  actorId := "unknown"
  tenantId := ""
  reason := failure.method ++ " authentication failed: " ++ failure.failureReason
  metadata := some
    (metadata [("authMethod", failure.method), ("failureReason", failure.failureReason)])

variable (m : AuthMiddleware) (env : HealthEnv)

/-- `this.auditLogger?.record(params)` -/
def State.record (params : AuditParams) (s : State) : State :=
  { s with
    auditLogger := s.auditLogger.map (AuditLogger.record env.now (env.isoText env.now) params) }

/-- `_recordAuthSuccess`, and what `authenticate` returns after it. -/
def accept (actor : Actor) (method : AuthMethod) (s : State) :
    State × Except AuthFailure AuthenticatedRequest :=
  let s := s.record env (successParams actor.id actor.tenantId method)
  ({ s with authSuccessCount := s.authSuccessCount + 1 },
    .ok { actor, authMethod := method, tokenId := actor.id })

/-- `_recordAuthFailure`, and what `authenticate` returns after it. -/
def refuse (failure : AuthFailure) (s : State) :
    State × Except AuthFailure AuthenticatedRequest :=
  let s := s.record env (failureParams failure)
  ({ s with authFailureCount := s.authFailureCount + 1 }, .error failure)

/-- A key that is empty is none. -/
def key : Option String := m.apiKey.filter (· ≠ "")

/-- `_validateJwtBearer` -/
def validateJwtBearer (token : String) : Option Actor :=
  m.oidcConfig.bind fun oidcConfig =>
    bearerActor env.jose token oidcConfig {} m.groupRoleMapping env.now (env.isoText env.now)

/-- The part of `authenticate` for a static key. -/
def authenticateApiKey (token : String) (s : State) :
    State × Except AuthFailure AuthenticatedRequest :=
  match m.key with
  | none => refuse env .invalidJwt s
  | some apiKey =>
    match actorFromApiKey token apiKey (env.isoText env.now) with
    | .ok actor => accept env actor .apiKey s
    | .error _ => refuse env .invalidKey s

/-- The actor of everyone where nothing is configured. -/
def internalRequest (verifiedAt : String) : AuthenticatedRequest where
  actor := { id := "internal", role := .admin, tenantId := "", authMethod := .internal, verifiedAt }
  authMethod := .internal
  tokenId := "internal"

/-- How far `authenticate` comes before it waits. -/
inductive Progress
  | settled (result : Except AuthFailure AuthenticatedRequest)
  | verifying (token : String)

/-- `authenticate` up to the verification of a token. -/
def authenticateStart (authorizationHeader : String) (s : State) : State × Progress :=
  if m.key.isNone ∧ m.oidcConfig.isNone then
    if m.requireAuth then
      let (s, result) := refuse env .notConfigured s
      (s, .settled result)
    else (s, .settled (.ok (internalRequest (env.isoText env.now))))
  else if !Text.startsWith authorizationHeader "Bearer " then
    let (s, result) := refuse env .missingToken s
    (s, .settled result)
  else
    let token := Text.sliceFrom authorizationHeader 7
    if m.oidcConfig.isSome then (s, .verifying token)
    else
      let (s, result) := m.authenticateApiKey env token s
      (s, .settled result)

/-- `authenticate` from the verification of the token on. -/
def authenticateEnd (token : String) (s : State) :
    State × Except AuthFailure AuthenticatedRequest :=
  match m.validateJwtBearer env token with
  | some actor => accept env actor .oidc s
  | none =>
    if !m.allowApiKeyFallbackWithOidc then refuse env .jwtFailedNoFallback s
    else m.authenticateApiKey env token s

/-- `authenticate` when nothing happens meanwhile. -/
def authenticate (authorizationHeader : String) (s : State) :
    State × Except AuthFailure AuthenticatedRequest :=
  match m.authenticateStart env authorizationHeader s with
  | (s, .settled result) => (s, result)
  | (s, .verifying token) => m.authenticateEnd env token s

/-- What both checks do with a result. -/
def check (actor : Actor) (permission : Permission) (targetTenantId : Option String)
    (result : Except AuthError Unit) (s : State) : State × Except AuthMiddlewareError Unit :=
  let s := s.record env (decisionParams actor (.of actor permission targetTenantId result))
  match result with
  | .ok () => (s, .ok ())
  | .error e =>
    ({ s with permissionDenyCount := s.permissionDenyCount + 1 },
      .error { statusCode := 403, authMethod := actor.authMethod.text, reason := e.message })

def checkPermission (actor : Actor) (permission : Permission) (s : State) :
    State × Except AuthMiddlewareError Unit :=
  check env actor permission none (authorize actor permission) s

def checkTenantAccess (actor : Actor) (targetTenantId : String) (s : State) :
    State × Except AuthMiddlewareError Unit :=
  check env actor .devVerify (some targetTenantId)
    (authorizeTenant actor .devVerify targetTenantId) s

/-! ### Calls -/

/-- The uses of a middleware; the first one is a call of a function that `requirePermission` has
made for a permission. -/
inductive Request (A : Type*)
  | guarded (permission : Permission) (authorizationHeader : String) (args : A)
  | authenticate (authorizationHeader : String)
  | checkPermission (actor : Actor) (permission : Permission)
  | checkTenantAccess (actor : Actor) (targetTenantId : String)

/-- What a call returns. -/
inductive Response (R : Type*)
  | refused (error : AuthMiddlewareError)
  | authenticated (request : AuthenticatedRequest)
  | allowed
  /-- The handler was called for the request, and this is its reply. -/
  | handled (request : AuthenticatedRequest) (reply : R)

inductive Phase (R : Type*)
  | arrived
  | verifying (token : String)
  /-- `authenticate` has settled for a guarded call that does not know it yet. -/
  | resuming (result : Except AuthFailure AuthenticatedRequest)
  | handling (request : AuthenticatedRequest)
  | done (response : Response R)

/-- A call, with what it has been told by `authenticate` and by a check. -/
structure Call (A R : Type*) where
  request : Request A
  phase : Phase R := .arrived
  authentication : Option (Except AuthFailure AuthenticatedRequest) := none
  decision : Option (Except AuthMiddlewareError Unit) := none

/-- What moves a call: its turn, or the reply of its handler. -/
inductive Turn (R : Type*)
  | resume (env : HealthEnv)
  | reply (value : R)

namespace Call

variable {A R : Type*} (c : Call A R)

/-- `authenticate` has settled. -/
def authenticated (result : Except AuthFailure AuthenticatedRequest) : Call A R :=
  { c with
    authentication := some result
    phase :=
      match c.request with
      | .guarded _ _ _ => .resuming result
      | _ =>
        match result with
        | .ok request => .done (.authenticated request)
        | .error failure => .done (.refused failure.error) }

/-- A check has returned, and this is what follows if it lets the call pass. -/
def checked (result : Except AuthMiddlewareError Unit) (next : Phase R) : Call A R :=
  { c with
    decision := some result
    phase :=
      match result with
      | .ok () => next
      | .error e => .done (.refused e) }

def start (s : State) : Progress → State × Call A R
  | .settled result => (s, c.authenticated result)
  | .verifying token => (s, { c with phase := .verifying token })

/-- The first turn of a call. -/
def arrive (s : State) : State × Call A R :=
  match c.request with
  | .guarded _ authorizationHeader _ | .authenticate authorizationHeader =>
    let (s, progress) := m.authenticateStart env authorizationHeader s
    c.start s progress
  | .checkPermission actor permission =>
    let (s, result) := AuthMiddleware.checkPermission env actor permission s
    (s, c.checked result (.done .allowed))
  | .checkTenantAccess actor targetTenantId =>
    let (s, result) := AuthMiddleware.checkTenantAccess env actor targetTenantId s
    (s, c.checked result (.done .allowed))

/-- The turn of a guarded call after `authenticate` has settled. -/
def proceed (result : Except AuthFailure AuthenticatedRequest) (s : State) : State × Call A R :=
  match result, c.request with
  | .error failure, _ => (s, { c with phase := .done (.refused failure.error) })
  | .ok request, .guarded permission _ _ =>
    let (s, result) := AuthMiddleware.checkPermission env request.actor permission s
    (s, c.checked result (.handling request))
  | .ok _, _ => (s, c)

def resume (s : State) : State × Call A R :=
  match c.phase with
  | .arrived => c.arrive m env s
  | .verifying token =>
    let (s, result) := m.authenticateEnd env token s
    (s, c.authenticated result)
  | .resuming result => c.proceed env result s
  | .handling _ | .done _ => (s, c)

def move (s : State) : Turn R → State × Call A R
  | .resume env => c.resume m env s
  | .reply value =>
    match c.phase with
    | .handling request => (s, { c with phase := .done (.handled request value) })
    | _ => (s, c)

end Call

/-- The calls of a middleware, beside other code that uses its logger. -/
def calls (A R : Type*) :
    Processes State (Call A R) (HealthEnv × AuditParams) (Request A) (Turn R) where
  outside s e := s.record e.1 e.2
  start _ request := { request }
  move s c turn := c.move m s turn

/-! ### The factory -/

/-- `createAuthMiddleware`, which throws what `parseGroupRoleMapping` throws. -/
def createAuthMiddleware (processEnv : ProcessEnv) (config : AuthMiddlewareConfig) :
    Except String AuthMiddleware :=
  let groupRoleMapping : Except String (Option GroupRoleMapping) :=
    match config.groupRoleMapping with
    | some mapping => .ok (some mapping)
    | none =>
      (GroupRoles.parseGroupRoleMapping (processEnv.get? "OIDC_GROUP_ROLE_MAP")).map
        (Option.map OrderedMap.entries)
  groupRoleMapping.map fun groupRoleMapping => ofConfig
    { oidcConfig := config.oidcConfig
      apiKey := config.apiKey.or (processEnv.get? "HEALTH_API_KEY")
      groupRoleMapping
      requireAuth := some (config.requireAuth.getD (isEnterpriseMode processEnv)) }

/-! ### The health server -/

/-- The health server with the same providers. -/
def onServer (m : AuthMiddleware) (s : HealthServer) : HealthServer :=
  { s with
    oidcConfig := m.oidcConfig
    apiKey := m.apiKey
    groupRoleMapping := m.groupRoleMapping
    requireAuth := m.requireAuth
    allowApiKeyFallbackWithOidc := m.allowApiKeyFallbackWithOidc }

theorem resolveApiKey_agrees (m : AuthMiddleware) (env : HealthEnv) (s : HealthServer)
    (token : String) (state : State) :
    ((m.onServer s).resolveApiKey env token).2.toOption =
      (m.authenticateApiKey env token state).2.toOption.map (·.actor) := by
  have hkey : (m.onServer s).apiKey.filter (· ≠ "") = m.key := rfl
  simp only [HealthServer.resolveApiKey, authenticateApiKey, hkey]
  cases m.key with
  | none => rfl
  | some apiKey =>
    dsimp only
    cases actorFromApiKey token apiKey (env.isoText env.now) <;> rfl

/-- The server may count a token that is verified and makes no actor, but takes it for invalid like
the middleware. -/
theorem validateJwtBearer_agrees (m : AuthMiddleware) (env : HealthEnv) (s : HealthServer)
    (token : String) : ∃ s', (m.onServer s).validateJwtBearer env token =
      (m.onServer s', m.validateJwtBearer env token) := by
  have hoidc : (m.onServer s).oidcConfig = m.oidcConfig := rfl
  simp only [HealthServer.validateJwtBearer, validateJwtBearer, hoidc]
  cases m.oidcConfig with
  | none => exact ⟨s, rfl⟩
  | some config =>
    simp only [Option.bind_some, bearerActor]
    cases verifyJwt env.jose token config {} env.now with
    | error e => exact ⟨s, rfl⟩
    | ok claims =>
      dsimp only
      have hmapping : (m.onServer s).groupRoleMapping = m.groupRoleMapping := rfl
      rw [hmapping]
      cases actorFromJwt claims m.groupRoleMapping (env.isoText env.now) with
      | ok actor => exact ⟨s, rfl⟩
      | error e =>
        exact ⟨{ s.auditAuth "unknown" false "" "JWT JWKS verification error — no fallback" with
          authFailureCount := s.authFailureCount + 1 }, rfl⟩

/-- The server and the middleware let in the same headers, for the same actors. -/
theorem resolveActor_agrees (m : AuthMiddleware) (env : HealthEnv) (s : HealthServer)
    (authorization : Option String) (state : State) :
    ((m.onServer s).resolveActor env authorization).2.toOption =
      (m.authenticate env (authorization.getD "") state).2.toOption.map (·.actor) := by
  have hkey : (m.onServer s).apiKey.filter (· ≠ "") = m.key := rfl
  have hoidc : (m.onServer s).oidcConfig = m.oidcConfig := rfl
  have hrequire : (m.onServer s).requireAuth = m.requireAuth := rfl
  rw [HealthServer.resolveActor, authenticate, authenticateStart]
  simp only [hkey, hoidc, hrequire, Bool.and_eq_true]
  by_cases hnone : m.key.isNone = true ∧ m.oidcConfig.isNone = true
  · rw [if_pos hnone, if_pos hnone]
    cases m.requireAuth <;> rfl
  rw [if_neg hnone, if_neg hnone]
  cases Text.startsWith (authorization.getD "") "Bearer " with
  | false => rfl
  | true =>
    simp only [Bool.not_true, Bool.false_eq_true, if_false]
    cases hconfig : m.oidcConfig with
    | none =>
      simp only [Option.isSome_none, Bool.false_eq_true, if_false]
      exact resolveApiKey_agrees m env s _ state
    | some config =>
      obtain ⟨s', hbearer⟩ := validateJwtBearer_agrees m env s
        (Text.sliceFrom (authorization.getD "") 7)
      simp only [Option.isSome_some, if_true, hbearer, authenticateEnd]
      cases m.validateJwtBearer env (Text.sliceFrom (authorization.getD "") 7) with
      | some actor => rfl
      | none =>
        have hfallback : (m.onServer s').allowApiKeyFallbackWithOidc =
          m.allowApiKeyFallbackWithOidc := rfl
        simp only [hfallback]
        cases m.allowApiKeyFallbackWithOidc with
        | false => rfl
        | true => exact resolveApiKey_agrees m env s' _ state

end AuthMiddleware

end KirkForge
