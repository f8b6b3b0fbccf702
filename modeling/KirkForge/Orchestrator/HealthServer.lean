import KirkForge.CoreRbac.JwtVerify

/-!
# The health server

The request handler of `health-server.ts` with `health-server/auth.ts`, the router of
`health-server/handlers.ts` and `ENDPOINT_PERMISSIONS` of `health-server-shared.ts`. The verdicts of
the body and rate limits are inputs of a request; of a response to an admitted request only the
handler that gives it is of interest here.
-/

namespace KirkForge

/-- What `auditAuth` hands to the audit logger. -/
structure AuthAudit where
  actorId : String
  success : Bool
  tenantId : String
  reason : String
  deriving DecidableEq

structure HealthServer where
  apiKey : Option String := none
  oidcConfig : Option OidcConfig := none
  groupRoleMapping : Option GroupRoleMapping := none
  requireAuth : Bool := false
  allowApiKeyFallbackWithOidc : Bool := false
  shuttingDown : Bool := false
  requestCount : Nat := 0
  authSuccessCount : Nat := 0
  authFailureCount : Nat := 0
  audits : List AuthAudit := []

/-- The library that verifies tokens, the clock in milliseconds and `toISOString`. -/
structure HealthEnv where
  jose : Jose
  now : Int
  isoText : Int → String

inductive DataHandler
  | healthz | readyz | metricsJson | metricsPrometheus | policy | auditVerify | tenants | openApi
  | quotas
  deriving DecidableEq, Repr

/-- `sendUnauthorized` and `sendForbidden`. -/
inductive AuthRefusal
  | unauthorized (reason : String)
  | forbidden (reason : String)
  deriving DecidableEq

inductive HealthResponse
  | noContent
  | methodNotAllowed (message : String)
  | serviceUnavailable
  | payloadTooLarge
  | rateLimited
  | refused (refusal : AuthRefusal)
  | notFound (message : String)
  | data (handler : DataHandler)
  /-- The connection has broken while the body was read. -/
  | nothing
  deriving DecidableEq

/-- The verdict of `consumeAndLimitBody`. -/
inductive BodyCheck
  | passed | tooLarge | broken
  deriving DecidableEq

structure HealthRequest where
  method : Option String := none
  url : Option String := none
  authorization : Option String := none
  body : BodyCheck := .passed
  /-- The verdict of `checkRateLimit`. -/
  withinRate : Actor → Bool := fun _ => true

/-! ### Authentication -/

namespace HealthServer

variable (env : HealthEnv) (s : HealthServer)

def auditAuth (actorId : String) (success : Bool) (tenantId reason : String) : HealthServer :=
  { s with audits := s.audits ++ [{ actorId, success, tenantId, reason }] }

def validateJwtBearer (token : String) : HealthServer × Option Actor :=
  match s.oidcConfig with
  | none => (s, none)
  | some oidcConfig =>
    match verifyJwt env.jose token oidcConfig {} env.now with
    | .error _ => (s, none)
    | .ok claims =>
      match actorFromJwt claims s.groupRoleMapping (env.isoText env.now) with
      | .ok actor => (s, some actor)
      | .error _ =>
        let s := s.auditAuth "unknown" false "" "JWT JWKS verification error — no fallback"
        ({ s with authFailureCount := s.authFailureCount + 1 }, none)

/-- The part of `resolveActor` for a static key. -/
def resolveApiKey (token : String) : HealthServer × Except AuthRefusal Actor :=
  match s.apiKey.filter (· ≠ "") with
  | none => (s, .error (.forbidden "invalid JWT token"))
  | some apiKey =>
    match actorFromApiKey token apiKey (env.isoText env.now) with
    | .ok actor =>
      let s := s.auditAuth actor.id true actor.tenantId "API key auth"
      ({ s with authSuccessCount := s.authSuccessCount + 1 }, .ok actor)
    | .error _ =>
      let s := s.auditAuth "unknown" false "" "Invalid API key"
      ({ s with authFailureCount := s.authFailureCount + 1 },
        .error (.forbidden "invalid API key"))

def resolveActor (authorization : Option String) : HealthServer × Except AuthRefusal Actor :=
  if (s.apiKey.filter (· ≠ "")).isNone && s.oidcConfig.isNone then
    if s.requireAuth then
      (s.auditAuth "none" false "" "No auth provider configured but auth is required",
        .error (.unauthorized "Auth is required but no provider is configured"))
    else
      (s, .ok
        { id := "internal"
          role := .admin
          tenantId := ""
          authMethod := .internal
          verifiedAt := env.isoText env.now })
  else
    let authHeader := authorization.getD ""
    if !Text.startsWith authHeader "Bearer " then
      (s, .error (.unauthorized "missing Bearer token"))
    else
      let token := Text.sliceFrom authHeader 7
      if s.oidcConfig.isSome then
        match s.validateJwtBearer env token with
        | (s, some actor) =>
          let s := s.auditAuth actor.id true actor.tenantId "JWT auth"
          ({ s with authSuccessCount := s.authSuccessCount + 1 }, .ok actor)
        | (s, none) =>
          if !s.allowApiKeyFallbackWithOidc then
            let s := s.auditAuth "unknown" false ""
              "JWT validation failed; API key fallback disabled"
            ({ s with authFailureCount := s.authFailureCount + 1 },
              .error (.forbidden "invalid JWT token; API key fallback disabled"))
          else s.resolveApiKey env token
      else s.resolveApiKey env token

/-! ### Authorization -/

/-- `url.split("?")[0].replace(/\/+$/, "") || "/"` -/
def normalizeUrl (url : String) : String :=
  let path := url.toList.takeWhile (· ≠ '?')
  match (path.reverse.dropWhile (· = '/')).reverse with
  | [] => "/"
  | path => String.ofList path

def endpointPermissions : List (String × Permission) :=
  [("/healthz", .operatorHealth), ("/readyz", .operatorHealth), ("/metrics", .viewerMetrics),
    ("/metrics/json", .viewerMetrics), ("/metrics/prometheus", .viewerMetrics),
    ("/v1/healthz", .operatorHealth), ("/v1/readyz", .operatorHealth),
    ("/v1/metrics", .viewerMetrics), ("/v1/metrics/json", .viewerMetrics),
    ("/v1/policy", .adminPolicy), ("/v1/audit", .adminAuditExport), ("/v1/tenants", .adminTenant),
    ("/v1/quotas", .adminTenant), ("/v1/openapi", .viewerMetrics)]

/-- The members that every object inherits, with their texts: no role has them as permissions. -/
def inheritedMember (name : String) : Option String :=
  if name = "constructor" then some "function Object() { [native code] }"
  else if name = "__proto__" then some "[object Object]"
  else if name ∈ inheritedProperties then
    some ("function " ++ name ++ "() { [native code] }")
  else none

def denied (actor : Actor) (reason response : String) : HealthServer × Option AuthRefusal :=
  let s := s.auditAuth actor.id false actor.tenantId reason
  ({ s with authFailureCount := s.authFailureCount + 1 }, some (.forbidden response))

/-- The refusal of the actor, if it is not let through. -/
def checkPermission (actor : Actor) (normalizedUrl : String) :
    HealthServer × Option AuthRefusal :=
  match OrderedMap.lookup normalizedUrl endpointPermissions with
  | some required =>
    match authorize actor required with
    | .ok () => (s, none)
    | .error e =>
      s.denied actor ("RBAC deny: " ++ actor.role.name ++ " lacks " ++ required.name ++ " for " ++
        normalizedUrl) e.message
  | none =>
    match inheritedMember normalizedUrl with
    | some required =>
      s.denied actor ("RBAC deny: " ++ actor.role.name ++ " lacks " ++ required ++ " for " ++
        normalizedUrl) ("Actor \"" ++ actor.id ++ "\" (role=" ++ actor.role.name ++
          ") does not have permission \"" ++ required ++ "\"")
    | none =>
      if Text.startsWith normalizedUrl "/v1/" then
        let reason := "No RBAC permission mapping for " ++ normalizedUrl
        s.denied actor reason reason
      else (s, none)

/-! ### Routing -/

def routeV1 : String → HealthResponse
  | "healthz" => .data .healthz
  | "readyz" => .data .readyz
  | "metrics" => .data .metricsPrometheus
  | "metrics/json" => .data .metricsJson
  | "policy" => .data .policy
  | "audit" => .data .auditVerify
  | "tenants" => .data .tenants
  | "openapi" => .data .openApi
  | "quotas" => .data .quotas
  | _ => .notFound "not_found"

/-- The end of the request handler, for an actor that was let through. -/
def route (url : String) : HealthResponse :=
  if Text.startsWith url "/v1/" then routeV1 (Text.sliceFrom url 4)
  else if url = "/healthz" then .data .healthz
  else if url = "/readyz" then .data .readyz
  else if url = "/metrics" then .data .metricsJson
  else if url = "/metrics/prometheus" then .data .metricsPrometheus
  else .notFound ("Unknown path: " ++ url)

/-- `s.toUpperCase()`, of which only the ASCII letters are of interest. -/
def toUpperCase (s : String) : String :=
  String.ofList (s.toList.map fun c =>
    if c = 'ı' then 'I' else if c = 'ſ' then 'S' else c.toUpper)

end HealthServer

def HealthRequest.path (request : HealthRequest) : String := request.url.getD "/"

namespace HealthServer

variable (env : HealthEnv) (s : HealthServer)

/-- The request handler after the body has been read. -/
def accept (request : HealthRequest) : HealthServer × HealthResponse :=
  match s.resolveActor env request.authorization with
  | (s, .error refusal) => (s, .refused refusal)
  | (s, .ok actor) =>
    if !request.withinRate actor then (s, .rateLimited)
    else
      match s.checkPermission actor (normalizeUrl request.path) with
      | (s, some refusal) => (s, .refused refusal)
      | (s, none) => (s, route request.path)

def requestHandler (request : HealthRequest) : HealthServer × HealthResponse :=
  let method := (request.method.map toUpperCase).getD "GET"
  if method = "OPTIONS" then (s, .noContent)
  else if method ≠ "GET" ∧ method ≠ "HEAD" then
    (s, .methodNotAllowed (method ++ " is not allowed"))
  else if s.shuttingDown then (s, .serviceUnavailable)
  else
    let s := { s with requestCount := s.requestCount + 1 }
    match request.body with
    | .tooLarge => ({ s with authFailureCount := s.authFailureCount + 1 }, .payloadTooLarge)
    | .broken => (s, .nothing)
    | .passed => s.accept env request

end HealthServer

end KirkForge
