import KirkForge.CoreRbac.Rbac
import KirkForge.Theory.Text
import Mathlib.Tactic.Linarith

/-!
# Verified tokens

`verifyJwt` (`core-rbac/src/jwt-verify.ts`). The signature and the registered claims are the
business of the `jose` library: what it returns for a token, keys and options at a time is a
parameter, and `Jose.Checks` is what it documents about a payload that it returns.
-/

namespace KirkForge

/-- The claims of a token as an object. -/
abbrev JwtPayload := List (String × Json)

/-- Where the keys come from: a set at hand, or an address with a time-out. -/
inductive KeySource
  | local (jwksSet : Json)
  | remote (url : String) (timeoutMs : JsNumber)

structure JoseOptions where
  issuer : String
  audience : String
  clockTolerance : JsNumber
  algorithms : List String

/-- The library and the network: `jwtVerify` throws with a message, an address may not be one, and a
discovery document may name an address. -/
structure Jose where
  jwtVerify : String → KeySource → JoseOptions → Int → Except String JwtPayload
  parseUrl : String → Except String String
  discover : String → Option String

structure VerifyJwtOptions where
  clockSkewSec : Option JsNumber := none
  requiredScopes : List String := []
  jwksUri : Option String := none
  timeoutMs : Option JsNumber := none
  jwksSet : Option Json := none

def allowedAlgorithms : List String :=
  ["RS256", "RS384", "RS512", "ES256", "ES384", "ES512", "PS256", "PS384", "PS512", "EdDSA"]

/-- `s.replace(/\/$/, "")` -/
def dropFinalSlash (s : String) : String :=
  if s.toList.getLast? = some '/' then String.ofList s.toList.dropLast else s

/-- What jose documents about the payload of a token that it has verified at `now`, beside the
signature: the issuer and the audience are the ones asked for, and a token that carries `exp` or
`nbf` is in its time. Whole seconds are compared. -/
structure Jose.Checks (jose : Jose) : Prop where
  issuer : ∀ {token keys options now payload}, jose.jwtVerify token keys options now = .ok payload →
    OrderedMap.lookup "iss" payload = some (.str options.issuer)
  audience : ∀ {token keys options now payload},
    jose.jwtVerify token keys options now = .ok payload →
      ∃ aud, OrderedMap.lookup "aud" payload = some aud ∧ .str options.audience ∈ audiences aud
  exp : ∀ {token keys options now payload v},
    jose.jwtVerify token keys options now = .ok payload → OrderedMap.lookup "exp" payload = some v →
      ∃ exp, v = .num exp ∧
        JsNumber.le (.finite exp) (.finite (now / 1000 : Int) - options.clockTolerance) = false
  nbf : ∀ {token keys options now payload v},
    jose.jwtVerify token keys options now = .ok payload → OrderedMap.lookup "nbf" payload = some v →
      ∃ nbf, v = .num nbf ∧
        JsNumber.gt (.finite nbf) (.finite (now / 1000 : Int) + options.clockTolerance) = false

section
variable (jose : Jose) (config : OidcConfig) (options : VerifyJwtOptions)

def discoverJwksUri (issuer : String) : String :=
  (jose.discover (dropFinalSlash issuer ++ "/.well-known/openid-configuration")).getD
    (dropFinalSlash issuer ++ "/.well-known/jwks.json")

def getKey : Except String KeySource :=
  match options.jwksSet with
  | some jwksSet => .ok (.local jwksSet)
  | none =>
    let jwksUri := (options.jwksUri.or config.jwksUri).getD (discoverJwksUri jose config.issuer)
    (jose.parseUrl jwksUri).map fun url => .remote url (options.timeoutMs.getD 5000)

def joseOptions : JoseOptions where
  issuer := config.issuer
  audience := config.audience
  clockTolerance := (options.clockSkewSec.or config.clockSkewSec).getD 30
  algorithms := allowedAlgorithms

/-- The payload that jose has verified. -/
def verifiedPayload (token : String) (now : Int) : Except String JwtPayload :=
  (getKey jose config options).bind fun keys =>
    jose.jwtVerify token keys (joseOptions config options) now

end

/-- `typeof v === "number" ? v : 0` -/
def numberOrZero : Option Json → ℚ
  | some (.num q) => q
  | _ => 0

def list? : Json → Option (List Json)
  | .arr items => some items
  | _ => none

/-- `(v as string) ?? ""`, by its text. -/
def textOrEmpty : Option Json → String
  | none | some .null => ""
  | some v => (v.toText fun q => JsNumber.text (.finite q)).getD ""

/-- The payload as claims, in which the times that the token does not carry are zero. -/
def claimsOf (config : OidcConfig) (payload : JwtPayload) : JwtClaims where
  sub := textOrEmpty (OrderedMap.lookup "sub" payload)
  iss := textOrEmpty (OrderedMap.lookup "iss" payload)
  aud :=
    match OrderedMap.lookup "aud" payload with
    | none | some .null => .str config.audience
    | some aud => aud
  exp := numberOrZero (OrderedMap.lookup "exp" payload)
  iat := numberOrZero (OrderedMap.lookup "iat" payload)
  roles := (OrderedMap.lookup "roles" payload).bind list?
  groups := (OrderedMap.lookup "groups" payload).bind list?
  tenant := (OrderedMap.lookup "tenant" payload).bind Json.str?
  scope := (OrderedMap.lookup "scope" payload).bind Json.str?

def missingScopes (options : VerifyJwtOptions) (claims : JwtClaims) : List String :=
  let tokenScopes := (Text.split ' ' (claims.scope.getD "")).filter (· ≠ "")
  options.requiredScopes.filter (· ∉ tokenScopes)

def verifyJwt (jose : Jose) (token : String) (config : OidcConfig) (options : VerifyJwtOptions)
    (now : Int) : Except AuthError JwtClaims :=
  match verifiedPayload jose config options token now with
  | .error message =>
    .error { code := "INVALID_TOKEN", message := "JWT verification failed: " ++ message }
  | .ok payload =>
    let claims := claimsOf config payload
    match missingScopes options claims with
    | [] => .ok claims
    | missing =>
      .error
        { code := "INVALID_TOKEN"
          message := "Missing required scopes: " ++ Text.join ", " missing }

theorem verifiedPayload_eq_ok_iff {jose : Jose} {token : String} {config : OidcConfig}
    {options : VerifyJwtOptions} {now : Int} {payload : JwtPayload} :
    verifiedPayload jose config options token now = .ok payload ↔
      ∃ keys, getKey jose config options = .ok keys ∧
        jose.jwtVerify token keys (joseOptions config options) now = .ok payload := by
  rw [verifiedPayload]
  cases getKey jose config options with
  | error message => simp [Except.bind]
  | ok keys => simp [Except.bind]

theorem verifyJwt_eq_ok_iff {jose : Jose} {token : String} {config : OidcConfig}
    {options : VerifyJwtOptions} {now : Int} {claims : JwtClaims} :
    verifyJwt jose token config options now = .ok claims ↔
      ∃ payload, verifiedPayload jose config options token now = .ok payload ∧
        claims = claimsOf config payload ∧ missingScopes options claims = [] := by
  rw [verifyJwt]
  cases verifiedPayload jose config options token now with
  | error message => simp
  | ok payload =>
    cases hmissing : missingScopes options (claimsOf config payload) with
    | nil =>
      simp only [hmissing]
      constructor
      · rintro ⟨rfl⟩
        exact ⟨payload, rfl, rfl, hmissing⟩
      · rintro ⟨_, ⟨rfl⟩, rfl, -⟩
        rfl
    | cons scope scopes =>
      simp only [hmissing]
      constructor
      · nofun
      · rintro ⟨_, ⟨rfl⟩, rfl, h⟩
        rw [hmissing] at h
        cases h

end KirkForge

/-!
## Whether the times of a token are enforced

`verifyJwt` leaves the times of a token to jose, which checks the expiry of a token that carries one
and does not check when it was issued, and it fills in zero for what a token does not carry.
`validateJwtClaims`, which nobody calls with the result, would refuse both. So the times are
enforced for the tokens whose claims are current by themselves.
-/

namespace KirkForge

variable {jose : Jose} {token : String} {config : OidcConfig} {options : VerifyJwtOptions}
  {now : Int} {payload : JwtPayload}

/-- What the callers of `verifyJwt` (`health-server/auth.ts`, `auth-middleware.ts`) make of a
token. -/
def bearerActor (jose : Jose) (token : String) (config : OidcConfig) (options : VerifyJwtOptions)
    (groupMapping : Option GroupRoleMapping) (now : Int) (verifiedAt : String) : Option Actor :=
  match verifyJwt jose token config options now with
  | .error _ => none
  | .ok claims => (actorFromJwt claims groupMapping verifiedAt).toOption

def exp? (payload : JwtPayload) : Option Json := OrderedMap.lookup "exp" payload

/-- When a token was issued, which is taken to be in 1970 if it does not say. -/
def issuedAt (payload : JwtPayload) : ℚ := numberOrZero (OrderedMap.lookup "iat" payload)

/-- Accepted claims are valid, and whoever acts on a token has one that expires and that was not
issued in the future. -/
structure TimesEnforced (jose : Jose) (token : String) (config : OidcConfig)
    (options : VerifyJwtOptions) (now : Int) : Prop where
  validated : ∀ claims, verifyJwt jose token config options now = .ok claims →
    validateJwtClaims claims config now = .ok claims
  dated : ∀ groupMapping verifiedAt actor,
    bearerActor jose token config options groupMapping now verifiedAt = some actor →
      ∃ payload, verifiedPayload jose config options token now = .ok payload ∧
        (exp? payload).isSome = true ∧ config.issuedLater (issuedAt payload) now = false

/-- Whether the groups of a token can be looked up, so that an actor can be made of it. -/
def GroupsReadable (config : OidcConfig) (payload : JwtPayload) : Prop :=
  (groupKeys (((claimsOf config payload).groups.or (claimsOf config payload).roles).getD [])).isSome

/-- The token has not expired, nor was it issued in the future, and it does expire. -/
structure Current (config : OidcConfig) (payload : JwtPayload) (now : Int) : Prop where
  notExpired : config.expired (numberOrZero (exp? payload)) now = false
  notFuture : config.issuedLater (issuedAt payload) now = false
  expires : GroupsReadable config payload → (exp? payload).isSome = true

theorem actorFromJwt_isSome_iff (groupMapping : Option GroupRoleMapping) (verifiedAt : String) :
    (actorFromJwt (claimsOf config payload) groupMapping verifiedAt).toOption.isSome = true ↔
      GroupsReadable config payload := by
  rw [actorFromJwt, GroupsReadable]
  cases groupKeys (((claimsOf config payload).groups.or
    (claimsOf config payload).roles).getD []) <;> simp [Except.toOption]

/-- The claims that jose vouches for pass the checks of the issuer and the audience. -/
theorem validate_claimsOf_iff (hjose : jose.Checks)
    (h : verifiedPayload jose config options token now = .ok payload) :
    validateJwtClaims (claimsOf config payload) config now = .ok (claimsOf config payload) ↔
      config.expired (numberOrZero (exp? payload)) now = false ∧
        config.issuedLater (issuedAt payload) now = false := by
  obtain ⟨keys, -, hverify⟩ := verifiedPayload_eq_ok_iff.mp h
  have hiss : (claimsOf config payload).iss = config.issuer := by
    rw [claimsOf, hjose.issuer hverify]
    rfl
  obtain ⟨aud, haud, hmem⟩ := hjose.audience hverify
  have haudience : .str config.audience ∈ audiences (claimsOf config payload).aud := by
    rw [claimsOf, haud]
    cases aud with
    | null => exact .head _
    | _ => exact hmem
  rw [validateJwtClaims_eq_ok_iff]
  exact ⟨fun h => h.2.2, fun h => ⟨hiss, haudience, h⟩⟩

theorem times_enforced_iff (hjose : jose.Checks) :
    TimesEnforced jose token config options now ↔
      ∀ payload, verifiedPayload jose config options token now = .ok payload →
        missingScopes options (claimsOf config payload) = [] → Current config payload now := by
  constructor
  · rintro ⟨hvalidated, hdated⟩ payload hpayload hscopes
    have hverify : verifyJwt jose token config options now = .ok (claimsOf config payload) :=
      verifyJwt_eq_ok_iff.mpr ⟨payload, hpayload, rfl, hscopes⟩
    obtain ⟨hexp, hiat⟩ := (validate_claimsOf_iff hjose hpayload).mp (hvalidated _ hverify)
    refine ⟨hexp, hiat, fun hgroups => ?_⟩
    obtain ⟨actor, hactor⟩ :=
      Option.isSome_iff_exists.mp ((actorFromJwt_isSome_iff none "").mpr hgroups)
    have hbearer : bearerActor jose token config options none now "" = some actor := by
      rw [bearerActor, hverify]
      exact hactor
    obtain ⟨payload', hpayload', hsome, -⟩ := hdated none "" actor hbearer
    rw [hpayload] at hpayload'
    obtain rfl := Except.ok.inj hpayload'
    exact hsome
  · intro h
    constructor
    · intro claims hverify
      obtain ⟨payload, hpayload, rfl, hscopes⟩ := verifyJwt_eq_ok_iff.mp hverify
      have hcurrent := h payload hpayload hscopes
      exact (validate_claimsOf_iff hjose hpayload).mpr ⟨hcurrent.notExpired, hcurrent.notFuture⟩
    · intro groupMapping verifiedAt actor hactor
      rw [bearerActor] at hactor
      cases hverify : verifyJwt jose token config options now with
      | error e => rw [hverify] at hactor; cases hactor
      | ok claims =>
        rw [hverify] at hactor
        obtain ⟨payload, hpayload, rfl, hscopes⟩ := verifyJwt_eq_ok_iff.mp hverify
        have hcurrent := h payload hpayload hscopes
        have hgroups := (actorFromJwt_isSome_iff groupMapping verifiedAt).mp
          (Option.isSome_iff_exists.mpr ⟨actor, hactor⟩)
        exact ⟨payload, hpayload, hcurrent.expires hgroups, hcurrent.notFuture⟩

/-! ### The tokens that jose lets through -/

/-- A token that carries an expiry has not expired, as long as the times are whole seconds and the
caller does not ask for a tolerance of its own. -/
theorem not_expired_of_carried (hjose : jose.Checks) {exp skew : Int}
    (h : verifiedPayload jose config options token now = .ok payload)
    (hexp : exp? payload = some (.num exp)) (hown : options.clockSkewSec = none)
    (hskew : config.clockSkewSec.getD 30 = .finite skew) : config.expired exp now = false := by
  obtain ⟨keys, -, hverify⟩ := verifiedPayload_eq_ok_iff.mp h
  obtain ⟨exp', hexp', hle⟩ := hjose.exp hverify hexp
  obtain rfl := Json.num.inj hexp'
  have htolerance : (joseOptions config options).clockTolerance = .finite skew := by
    rw [joseOptions, hown, Option.none_or, hskew]
  rw [htolerance, JsNumber.finite_sub, JsNumber.le, decide_eq_false_iff_not, not_le] at hle
  have hlt : now / 1000 - skew < exp := by exact_mod_cast hle
  -- whole seconds: the next second after `now / 1000` is not before `now`
  have hnow : now - skew * 1000 ≤ exp * 1000 := by omega
  rw [OidcConfig.expired, OidcConfig.clockSkewMs, hskew, millis, JsNumber.finite_sub,
    ← Bool.not_eq_true, JsNumber.finite_lt_iff, not_lt]
  exact_mod_cast hnow

/-- The registered claims as jose checks them. -/
def joseClaims (options : JoseOptions) (now : Int) (payload : JwtPayload) : Bool :=
  let second := JsNumber.finite (now / 1000 : Int)
  let expOk := match OrderedMap.lookup "exp" payload with
    | none => true
    | some (.num exp) => !JsNumber.le (.finite exp) (second - options.clockTolerance)
    | some _ => false
  let nbfOk := match OrderedMap.lookup "nbf" payload with
    | none => true
    | some (.num nbf) => !JsNumber.gt (.finite nbf) (second + options.clockTolerance)
    | some _ => false
  OrderedMap.lookup "iss" payload = some (.str options.issuer) &&
    (OrderedMap.lookup "aud" payload).any (fun aud => .str options.audience ∈ audiences aud) &&
      expOk && nbfOk

/-- jose over a check of signatures. -/
def Jose.ofSignatures (signed : String → KeySource → List String → Option JwtPayload) : Jose where
  jwtVerify token keys options now :=
    match signed token keys options.algorithms with
    | none => .error "signature verification failed"
    | some payload =>
      if joseClaims options now payload then .ok payload else .error "unexpected claim value"
  parseUrl url := .ok url
  discover _ := none

theorem Jose.ofSignatures_checks (signed : String → KeySource → List String → Option JwtPayload) :
    (Jose.ofSignatures signed).Checks := by
  have hclaims {token keys options now payload}
      (h : (Jose.ofSignatures signed).jwtVerify token keys options now = .ok payload) :
      joseClaims options now payload = true := by
    simp only [Jose.ofSignatures] at h
    cases hsigned : signed token keys options.algorithms with
    | none =>
      rw [hsigned] at h
      cases h
    | some payload' =>
      simp only [hsigned] at h
      cases hok : joseClaims options now payload' with
      | false => rw [hok] at h; cases h
      | true =>
        rw [hok] at h
        exact Except.ok.inj h ▸ hok
  constructor
  · intro token keys options now payload h
    have := hclaims h
    simp only [joseClaims, Bool.and_eq_true] at this
    exact of_decide_eq_true this.1.1.1
  · intro token keys options now payload h
    have := hclaims h
    simp only [joseClaims, Bool.and_eq_true] at this
    obtain ⟨aud, haud, hmem⟩ := (Option.any_eq_true _ _).mp this.1.1.2
    exact ⟨aud, haud, of_decide_eq_true hmem⟩
  · intro token keys options now payload v h hv
    have := hclaims h
    simp only [joseClaims, Bool.and_eq_true, hv] at this
    cases v with
    | num exp => exact ⟨exp, rfl, by simpa using this.1.2⟩
    | _ => cases this.1.2
  · intro token keys options now payload v h hv
    have := hclaims h
    simp only [joseClaims, Bool.and_eq_true, hv] at this
    cases v with
    | num nbf => exact ⟨nbf, rfl, by simpa using this.2⟩
    | _ => cases this.2

theorem not_timesEnforced
    (h : (verifyJwt jose token config options now).toOption.any (fun claims =>
      !(validateJwtClaims claims config now).toOption.isSome) = true) :
    ¬ TimesEnforced jose token config options now := by
  rintro ⟨hvalidated, -⟩
  obtain ⟨claims, hclaims, hinvalid⟩ := (Option.any_eq_true _ _).mp h
  have hverify : verifyJwt jose token config options now = .ok claims := by
    cases hverify : verifyJwt jose token config options now with
    | error e => rw [hverify] at hclaims; cases hclaims
    | ok claims' => rw [hverify] at hclaims; rw [Option.some.inj hclaims]
  rw [hvalidated claims hverify] at hinvalid
  cases hinvalid

private def exampleConfig : OidcConfig where
  issuer := "https://auth.example.com"
  audience := "kirkforge"

/-- A user without an expiry, one who signs in an hour from 2023-11-14T22:13:20Z, and one who has
just done so. -/
private def exampleJose : Jose := .ofSignatures fun token _ _ =>
  let registered : JwtPayload := [("iss", .str "https://auth.example.com"),
    ("aud", .str "kirkforge"), ("sub", .str "user-1"), ("groups", .arr [.str "admins"])]
  if token = "eternal" then some registered
  else if token = "early" then
    some (registered ++ [("iat", .num 1700003600), ("exp", .num 1700007200)])
  else if token = "current" then
    some (registered ++ [("iat", .num 1700000000), ("exp", .num 1700003600)])
  else none

private def exampleAdmin : Actor where
  id := "user-1"
  role := .admin
  tenantId := ""
  authMethod := .oidc
  verifiedAt := "2023-11-14T22:13:20.000Z"

/-- A token without an expiry makes an administrator, as does one that is issued in an hour. -/
theorem verifyJwt_accepts_eternal :
    exampleJose.Checks ∧
    bearerActor exampleJose "eternal" exampleConfig {} none 1700000000000
      "2023-11-14T22:13:20.000Z" = some exampleAdmin ∧
    bearerActor exampleJose "early" exampleConfig {} none 1700000000000
      "2023-11-14T22:13:20.000Z" = some exampleAdmin ∧
    ¬ TimesEnforced exampleJose "eternal" exampleConfig {} 1700000000000 ∧
    ¬ TimesEnforced exampleJose "early" exampleConfig {} 1700000000000 := by
  refine ⟨Jose.ofSignatures_checks _, by decide +kernel, by decide +kernel, ?_, ?_⟩
  · exact not_timesEnforced (by decide +kernel)
  · exact not_timesEnforced (by decide +kernel)

theorem times_enforced_current :
    TimesEnforced exampleJose "current" exampleConfig {} 1700000000000 ↔
      ∀ payload,
        verifiedPayload exampleJose exampleConfig {} "current" 1700000000000 = .ok payload →
        missingScopes {} (claimsOf exampleConfig payload) = [] →
          Current exampleConfig payload 1700000000000 :=
  times_enforced_iff (Jose.ofSignatures_checks _)

end KirkForge
