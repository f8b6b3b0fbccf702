import KirkForge.CoreTypes.Access
import KirkForge.Theory.JsNumber
import KirkForge.Theory.Json

/-!
# Roles, permissions and tokens

Role-based access control (`core-rbac/src/index.ts`): which permissions a role has, the role of a
list of groups, the checks of the claims of a token, and the actors that a token or an API key
stands for.
-/

namespace KirkForge

inductive Permission
  | adminConfig | adminPolicy | adminTenant | adminKeys | adminAuditExport
  | operatorHealth | operatorRestart | operatorViewAudit
  | devVerify | devCorrect | devObserve | devMemoryRead | devMemoryWrite
  | viewerStatus | viewerResults | viewerMetrics
  deriving DecidableEq, Repr

def Permission.name : Permission → String
  | adminConfig => "admin:config"
  | adminPolicy => "admin:policy"
  | adminTenant => "admin:tenant"
  | adminKeys => "admin:keys"
  | adminAuditExport => "admin:audit_export"
  | operatorHealth => "operator:health"
  | operatorRestart => "operator:restart"
  | operatorViewAudit => "operator:view_audit"
  | devVerify => "dev:verify"
  | devCorrect => "dev:correct"
  | devObserve => "dev:observe"
  | devMemoryRead => "dev:memory_read"
  | devMemoryWrite => "dev:memory_write"
  | viewerStatus => "viewer:status"
  | viewerResults => "viewer:results"
  | viewerMetrics => "viewer:metrics"

def Role.name : Role → String
  | admin => "admin"
  | operator => "operator"
  | developer => "developer"
  | viewer => "viewer"

def rolePermissions : Role → List Permission
  | .admin =>
    [.adminConfig, .adminPolicy, .adminTenant, .adminKeys, .adminAuditExport, .operatorHealth,
      .operatorRestart, .operatorViewAudit, .devVerify, .devCorrect, .devObserve, .devMemoryRead,
      .devMemoryWrite, .viewerStatus, .viewerResults, .viewerMetrics]
  | .operator =>
    [.operatorHealth, .operatorRestart, .operatorViewAudit, .viewerStatus, .viewerResults,
      .viewerMetrics]
  | .developer =>
    [.devVerify, .devCorrect, .devObserve, .devMemoryRead, .devMemoryWrite, .viewerStatus,
      .viewerResults, .viewerMetrics]
  | .viewer => [.viewerStatus, .viewerResults, .viewerMetrics]

structure AuthError where
  code : String
  message : String
  deriving DecidableEq, Repr

def hasPermission (actor : Actor) (permission : Permission) : Bool :=
  permission ∈ rolePermissions actor.role

def authorize (actor : Actor) (permission : Permission) : Except AuthError Unit :=
  if hasPermission actor permission then .ok ()
  else .error
    { code := "FORBIDDEN"
      message := "Actor \"" ++ actor.id ++ "\" (role=" ++ actor.role.name ++
        ") does not have permission \"" ++ permission.name ++ "\"" }

theorem authorize_eq_ok_iff {actor : Actor} {permission : Permission} :
    authorize actor permission = .ok () ↔ hasPermission actor permission = true := by
  rw [authorize]
  split <;> simp [*]

/-! ### Roles of groups -/

abbrev GroupRoleMapping := List (String × Role)

def defaultGroupRoleMapping : GroupRoleMapping :=
  [("kirkforge-admins", .admin), ("kirkforge-operators", .operator),
    ("kirkforge-developers", .developer), ("kirkforge-viewers", .viewer), ("admins", .admin),
    ("operators", .operator), ("developers", .developer), ("viewers", .viewer)]

def resolveRole (groups : List String) (mapping : Option GroupRoleMapping) : Role :=
  let m := mapping.getD defaultGroupRoleMapping
  let matched := groups.filterMap fun group => OrderedMap.lookup group m
  let priority : List Role := [.admin, .operator, .developer, .viewer]
  (priority.find? fun p => p ∈ matched).getD .viewer

/-! ### Claims -/

structure OidcConfig where
  issuer : String
  audience : String
  jwksUri : Option String := none
  clockSkewSec : Option JsNumber := none

/-- The claims of a token; `aud`, `roles` and `groups` are kept as the token has them. -/
structure JwtClaims where
  sub : String
  iss : String
  aud : Json
  exp : ℚ
  iat : ℚ
  roles : Option (List Json) := none
  groups : Option (List Json) := none
  tenant : Option String := none
  scope : Option String := none
  deriving DecidableEq

/-- `seconds * 1000` -/
def millis : JsNumber → JsNumber
  | .finite seconds => .finite (seconds * 1000)
  | seconds => seconds

def OidcConfig.clockSkewMs (config : OidcConfig) : JsNumber :=
  millis (config.clockSkewSec.getD 30)

/-- Whether a token that expires after `exp` seconds has expired for good at `now`. -/
def OidcConfig.expired (config : OidcConfig) (exp : ℚ) (now : Int) : Bool :=
  JsNumber.gt (.finite now - config.clockSkewMs) (.finite (exp * 1000))

/-- Whether a token issued after `iat` seconds is issued in the future of `now`. -/
def OidcConfig.issuedLater (config : OidcConfig) (iat : ℚ) (now : Int) : Bool :=
  JsNumber.gt (.finite (iat * 1000)) (.finite now + config.clockSkewMs)

/-- `Array.isArray(aud) ? aud : [aud]` -/
def audiences : Json → List Json
  | .arr items => items
  | aud => [aud]

def validateJwtClaims (claims : JwtClaims) (config : OidcConfig) (now : Int) :
    Except AuthError JwtClaims :=
  if claims.iss ≠ config.issuer then
    .error
      { code := "INVALID_TOKEN"
        message := "JWT issuer mismatch: expected \"" ++ config.issuer ++ "\", got \"" ++
          claims.iss ++ "\"" }
  else if .str config.audience ∉ audiences claims.aud then
    .error
      { code := "INVALID_TOKEN"
        message := "JWT audience mismatch: expected \"" ++ config.audience ++ "\"" }
  else if config.expired claims.exp now then
    .error { code := "INVALID_TOKEN", message := "JWT token expired" }
  else if config.issuedLater claims.iat now then
    .error { code := "INVALID_TOKEN", message := "JWT issued-at is in the future" }
  else .ok claims

theorem validateJwtClaims_eq_ok_iff {claims : JwtClaims} {config : OidcConfig} {now : Int} :
    validateJwtClaims claims config now = .ok claims ↔
      claims.iss = config.issuer ∧ .str config.audience ∈ audiences claims.aud ∧
        config.expired claims.exp now = false ∧ config.issuedLater claims.iat now = false := by
  rw [validateJwtClaims]
  by_cases hiss : claims.iss = config.issuer
  · by_cases haud : .str config.audience ∈ audiences claims.aud
    · cases hexp : config.expired claims.exp now <;>
        cases hiat : config.issuedLater claims.iat now <;> simp [hiss, haud]
    · simp [hiss, haud]
  · simp [hiss]

/-! ### Actors -/

/-- The property keys that the groups of a token are looked up by; an object that has no text makes
the lookup throw. -/
def groupKeys (groups : List Json) : Option (List String) :=
  groups.mapM (Json.toText fun q => JsNumber.text (.finite q))

def actorFromJwt (claims : JwtClaims) (groupMapping : Option GroupRoleMapping)
    (verifiedAt : String) : Except String Actor :=
  match groupKeys ((claims.groups.or claims.roles).getD []) with
  | none => .error "Cannot convert object to primitive value"
  | some groups => .ok
      { id := claims.sub
        role := resolveRole groups groupMapping
        tenantId := claims.tenant.getD ""
        authMethod := .oidc
        verifiedAt }

/-- The bytes at the end of a buffer of the given length, which is zero before them. -/
def padded (length : Nat) (bytes : List UInt8) : List UInt8 :=
  List.replicate (length - bytes.length) 0 ++ bytes

/-- `actorFromApiKey` without a role or a tenant of the caller's. -/
def actorFromApiKey (token expectedApiKey verifiedAt : String) : Except AuthError Actor :=
  if token = "" ∨ expectedApiKey = "" then
    .error { code := "UNAUTHORIZED", message := "Missing token or API key" }
  else
    let tokenBuf := token.toUTF8.toList
    let keyBuf := expectedApiKey.toUTF8.toList
    let maxLen := max tokenBuf.length keyBuf.length
    if padded maxLen tokenBuf ≠ padded maxLen keyBuf then
      .error { code := "INVALID_TOKEN", message := "Invalid token" }
    else .ok
      { id := "api-key:" ++ Role.operator.name
        role := .operator
        tenantId := ""
        authMethod := .apiKey
        verifiedAt }

end KirkForge
