import KirkForge.CoreEvents.FileIntegrity
import KirkForge.Orchestrator.EndpointAuthorization
import KirkForge.Plugin.AuthMiddleware
import Mathlib.Algebra.Group.Prod
import Mathlib.Algebra.Order.Group.Multiset

/-!
# Runs of guarded calls

What holds however the calls of a middleware interleave, with each other and with other code that
uses the audit logger. A handler is called only for a request that is let in and whose actor has the
permission, and the grant is on record (`guarded_calls_vouched`). Every authentication and every
decision is counted once and recorded once (`audit_trail_accounted`), in events that JSON keeps as
they are, so that the audit file passes `audit-verify` as long as its sink keeps in step with it
(`audit_files_verified`). With a middleware from the factory a token is never passed over
(`created_calls_verified`).
-/

namespace KirkForge.AuthMiddleware

variable {m : AuthMiddleware} {envs : HealthEnv → Prop} {env : HealthEnv} {s : State}
  {header token : String} {request : AuthenticatedRequest}
  {result : Except AuthFailure AuthenticatedRequest}

/-! ### Who is let in -/

/-- The request of a header that is let in: nothing is configured, or the token is the key, or the
library verifies it in one of the environments. -/
inductive Entitled (m : AuthMiddleware) (envs : HealthEnv → Prop) (header : String) :
    AuthenticatedRequest → Prop
  | unguarded (hkey : m.key = none) (hoidc : m.oidcConfig = none) (hrequire : m.requireAuth = false)
    (verifiedAt : String) : Entitled m envs header (internalRequest verifiedAt)
  | verified (env : HealthEnv) (henv : envs env) (config : OidcConfig)
    (hconfig : m.oidcConfig = some config) (token : String) (hheader : header = "Bearer " ++ token)
    (actor : Actor) (hactor : bearerActor env.jose token config {} m.groupRoleMapping env.now
      (env.isoText env.now) = some actor) :
    Entitled m envs header { actor, authMethod := .oidc, tokenId := actor.id }
  | key (hallowed : m.oidcConfig = none ∨ m.allowApiKeyFallbackWithOidc = true) (key : String)
    (hkey : m.key = some key) (token : String) (hheader : header = "Bearer " ++ token)
    (verifiedAt : String) (actor : Actor)
    (hactor : actorFromApiKey token key verifiedAt = .ok actor) :
    Entitled m envs header { actor, authMethod := .apiKey, tokenId := actor.id }

/-- What `authenticate` leaves behind with a result. -/
def State.after (env : HealthEnv) (s : State) : Except AuthFailure AuthenticatedRequest → State
  | .error failure => (refuse env failure s).1
  | .ok request =>
    if request.authMethod = .internal then s else (accept env request.actor request.authMethod s).1

/-- A part of `authenticate` that settles. -/
structure Settles (m : AuthMiddleware) (envs : HealthEnv → Prop) (env : HealthEnv) (header : String)
    (s : State) (r : State × Except AuthFailure AuthenticatedRequest) : Prop where
  state : r.1 = s.after env r.2
  entitled : ∀ request, r.2 = .ok request → Entitled m envs header request

theorem settles_refuse (failure : AuthFailure) :
    Settles m envs env header s (refuse env failure s) where
  state := rfl
  entitled _ h := by cases h

theorem settles_accept {actor : Actor} {method : AuthMethod} (hmethod : method ≠ .internal)
    (h : Entitled m envs header { actor, authMethod := method, tokenId := actor.id }) :
    Settles m envs env header s (accept env actor method s) where
  state := (if_neg hmethod).symm
  entitled request hrequest := by
    obtain rfl : _ = request := Except.ok.inj hrequest
    exact h

theorem authenticateApiKey_settles (hheader : header = "Bearer " ++ token)
    (hallowed : m.oidcConfig = none ∨ m.allowApiKeyFallbackWithOidc = true) :
    Settles m envs env header s (m.authenticateApiKey env token s) := by
  rw [authenticateApiKey]
  cases hkey : m.key with
  | none => exact settles_refuse _
  | some apiKey =>
    cases hactor : actorFromApiKey token apiKey (env.isoText env.now) with
    | error e =>
      simp only [hactor]
      exact settles_refuse _
    | ok actor =>
      simp only [hactor]
      exact settles_accept (by decide) (.key hallowed apiKey hkey token hheader _ actor hactor)

theorem authenticateEnd_settles (henv : envs env) (hheader : header = "Bearer " ++ token) :
    Settles m envs env header s (m.authenticateEnd env token s) := by
  rw [authenticateEnd]
  cases hbearer : m.validateJwtBearer env token with
  | some actor =>
    obtain ⟨config, hconfig, hactor⟩ := Option.bind_eq_some_iff.mp hbearer
    exact settles_accept (by decide)
      (.verified env henv config hconfig token hheader actor hactor)
  | none =>
    cases hfallback : m.allowApiKeyFallbackWithOidc with
    | false => exact settles_refuse _
    | true => exact authenticateApiKey_settles hheader (.inr hfallback)

/-- How far a call of `authenticate` has come. -/
inductive Progresses (m : AuthMiddleware) (envs : HealthEnv → Prop) (env : HealthEnv)
    (header : String) (s : State) : State × Progress → Prop
  | settled (r : State × Except AuthFailure AuthenticatedRequest)
    (h : Settles m envs env header s r) : Progresses m envs env header s (r.1, .settled r.2)
  | verifying (token : String) (h : header = "Bearer " ++ token) :
    Progresses m envs env header s (s, .verifying token)

theorem authenticateStart_progresses :
    Progresses m envs env header s (m.authenticateStart env header s) := by
  rw [authenticateStart]
  by_cases hnone : m.key.isNone ∧ m.oidcConfig.isNone
  · rw [if_pos hnone]
    obtain ⟨hkey, hoidc⟩ := hnone
    cases hrequire : m.requireAuth with
    | true => exact .settled _ (settles_refuse _)
    | false =>
      refine .settled (s, .ok (internalRequest _)) ⟨rfl, fun request hrequest => ?_⟩
      obtain rfl : _ = request := Except.ok.inj hrequest
      exact .unguarded (Option.isNone_iff_eq_none.mp hkey) (Option.isNone_iff_eq_none.mp hoidc)
        hrequire _
  rw [if_neg hnone]
  cases hbearer : Text.startsWith header "Bearer " with
  | false => exact .settled _ (settles_refuse _)
  | true =>
    have hheader : header = "Bearer " ++ Text.sliceFrom header 7 :=
      HealthServer.eq_append_of_startsWith hbearer
    cases hoidc : m.oidcConfig with
    | some config => exact .verifying _ hheader
    | none => exact .settled _ (authenticateApiKey_settles hheader (.inl hoidc))

/-! ### What is recorded -/

/-- The argument of a decision: who wants to do what, and in which tenant. -/
structure Subject where
  actor : Actor
  permission : Permission
  targetTenantId : Option String

def Subject.judge (x : Subject) : Except AuthError Unit :=
  match x.targetTenantId with
  | none => authorize x.actor x.permission
  | some targetTenantId => authorizeTenant x.actor x.permission targetTenantId

def Subject.params (x : Subject) : AuditParams :=
  decisionParams x.actor (.of x.actor x.permission x.targetTenantId x.judge)

/-- The check of a subject. -/
def Subject.check (env : HealthEnv) (x : Subject) (s : State) :
    State × Except AuthMiddlewareError Unit :=
  AuthMiddleware.check env x.actor x.permission x.targetTenantId x.judge s

theorem check_snd (env : HealthEnv) (x : Subject) (s : State) :
    (x.check env s).2 = x.judge.mapError fun e =>
      { statusCode := 403, authMethod := x.actor.authMethod.text, reason := e.message } := by
  simp only [Subject.check, AuthMiddleware.check]
  cases x.judge <;> rfl

variable {A R : Type*} {c : Call A R}

namespace Call

/-- The header of a call that authenticates. -/
def header? (c : Call A R) : Option String :=
  match c.request with
  | .guarded _ authorizationHeader _ | .authenticate authorizationHeader => some authorizationHeader
  | .checkPermission _ _ | .checkTenantAccess _ _ => none

/-- What a call has checked, or will check next. -/
def subject? (c : Call A R) : Option Subject :=
  match c.request with
  | .guarded permission _ _ =>
    match c.authentication with
    | some (.ok request) => some ⟨request.actor, permission, none⟩
    | _ => none
  | .authenticate _ => none
  | .checkPermission actor permission => some ⟨actor, permission, none⟩
  | .checkTenantAccess actor targetTenantId => some ⟨actor, .devVerify, some targetTenantId⟩

/-- The records of what `authenticate` has returned. -/
def authenticationRecords : Option (Except AuthFailure AuthenticatedRequest) → List AuditParams
  | none => []
  | some (.error failure) => [failureParams failure]
  | some (.ok request) =>
    if request.authMethod = .internal then []
    else [successParams request.actor.id request.actor.tenantId request.authMethod]

/-- The records that a call owes the logger by now. -/
def records (c : Call A R) : List AuditParams :=
  authenticationRecords c.authentication ++
    if c.decision.isSome then c.subject?.toList.map Subject.params else []

/-- Whether the call has been let in by a token. -/
def succeeded (c : Call A R) : Bool :=
  match c.authentication with
  | some (.ok request) => request.authMethod ≠ .internal
  | _ => false

def failed (c : Call A R) : Bool :=
  match c.authentication with
  | some (.error _) => true
  | _ => false

def denied (c : Call A R) : Bool :=
  match c.decision with
  | some (.error _) => true
  | _ => false

/-- The request for which the handler of a call has been called. -/
def ran (c : Call A R) : Option AuthenticatedRequest :=
  match c.phase with
  | .handling request | .done (.handled request _) => some request
  | _ => none

end Call

/-! ### What a turn can do -/

/-- The handler has been called for a request that is let in and may do what is asked for. -/
structure Ran (m : AuthMiddleware) (envs : HealthEnv → Prop) (c : Call A R)
    (request : AuthenticatedRequest) : Prop where
  authentication : c.authentication = some (.ok request)
  decision : c.decision = some (.ok ())
  guarded : ∃ permission header args, c.request = .guarded permission header args ∧
    Entitled m envs header request ∧ authorize request.actor permission = .ok ()

/-- Nobody has told the call anything yet. -/
structure Untold (c : Call A R) : Prop where
  authentication : c.authentication = none
  decision : c.decision = none

/-- How far a call has come, by its phase. -/
def Sound (m : AuthMiddleware) (envs : HealthEnv → Prop) (c : Call A R) : Prop :=
  match c.phase with
  | .arrived => Untold c
  | .verifying token => Untold c ∧ c.header? = some ("Bearer " ++ token)
  | .resuming result => c.authentication = some result ∧ c.decision = none ∧
    ∀ request, result = .ok request → ∃ permission header args,
      c.request = .guarded permission header args ∧ Entitled m envs header request
  | .handling request | .done (.handled request _) => Ran m envs c request
  | .done _ => True

/-- What a turn can do: nothing that anybody sees, settle the authentication of a call, or check
its subject. -/
inductive Moved (m : AuthMiddleware) (s : State) (c : Call A R) : State × Call A R → Prop
  | unseen (phase : Phase R) : Moved m s c (s, { c with phase })
  | settled (env : HealthEnv) (result : Except AuthFailure AuthenticatedRequest) (h : Untold c) :
    Moved m s c (s.after env result, c.authenticated result)
  | checked (env : HealthEnv) (x : Subject) (next : Phase R) (hx : c.subject? = some x)
    (h : c.decision = none) :
    Moved m s c ((x.check env s).1, c.checked (x.check env s).2 next)

theorem sound_authenticated (hheader : c.header? = some header) (hnone : c.decision = none)
    (h : ∀ request, result = .ok request → Entitled m envs header request) :
    Sound m envs (c.authenticated result) := by
  obtain ⟨request, phase, authentication, decision⟩ := c
  cases request with
  | guarded permission authorizationHeader args =>
    obtain rfl : authorizationHeader = header := Option.some.inj hheader
    exact ⟨rfl, hnone, fun request hrequest => ⟨permission, _, args, rfl, h request hrequest⟩⟩
  | authenticate authorizationHeader => cases result <;> trivial
  | checkPermission actor permission => cases hheader
  | checkTenantAccess actor targetTenantId => cases hheader

theorem sound_checked {result : Except AuthMiddlewareError Unit} {next : Phase R}
    (h : result = .ok () → Sound m envs { c with decision := some result, phase := next }) :
    Sound m envs (c.checked result next) := by
  cases result with
  | error e => trivial
  | ok u => exact h rfl

theorem start_moved {s' : State} {progress : Progress} (h : Untold c)
    (hheader : c.header? = some header)
    (hprogress : Progresses m envs env header s (s', progress)) :
    Moved m s c (c.start s' progress) ∧ Sound m envs (c.start s' progress).2 := by
  cases hprogress with
  | settled r hr =>
    refine ⟨?_, sound_authenticated hheader h.decision hr.entitled⟩
    rw [hr.state]
    exact .settled env _ h
  | verifying token htoken => exact ⟨.unseen _, ⟨h.authentication, h.decision⟩, htoken ▸ hheader⟩

theorem arrive_moved (h : Untold c) :
    Moved m s c (c.arrive m env s) ∧ Sound m envs (c.arrive m env s).2 := by
  cases hrequest : c.request with
  | guarded permission authorizationHeader args =>
    have hheader : c.header? = some authorizationHeader := by rw [Call.header?, hrequest]
    simp only [Call.arrive, hrequest]
    exact start_moved h hheader authenticateStart_progresses
  | authenticate authorizationHeader =>
    have hheader : c.header? = some authorizationHeader := by rw [Call.header?, hrequest]
    simp only [Call.arrive, hrequest]
    exact start_moved h hheader authenticateStart_progresses
  | checkPermission actor permission =>
    have hsubject : c.subject? = some ⟨actor, permission, none⟩ := by rw [Call.subject?, hrequest]
    simp only [Call.arrive, hrequest]
    exact ⟨.checked env _ _ hsubject h.decision, sound_checked fun _ => trivial⟩
  | checkTenantAccess actor targetTenantId =>
    have hsubject : c.subject? = some ⟨actor, .devVerify, some targetTenantId⟩ := by
      rw [Call.subject?, hrequest]
    simp only [Call.arrive, hrequest]
    exact ⟨.checked env _ _ hsubject h.decision, sound_checked fun _ => trivial⟩

theorem proceed_moved (hphase : c.phase = .resuming result) (h : Sound m envs c) :
    Moved m s c (c.proceed env result s) ∧ Sound m envs (c.proceed env result s).2 := by
  obtain ⟨asked, phase, authentication, decision⟩ := c
  obtain rfl : phase = .resuming result := hphase
  obtain ⟨rfl, hnone, hok⟩ := h
  cases result with
  | error failure => exact ⟨.unseen _, trivial⟩
  | ok request =>
    obtain ⟨permission, header, args, rfl, hentitled⟩ := hok request rfl
    refine ⟨.checked env ⟨request.actor, permission, none⟩ _ rfl hnone, sound_checked fun hpass => ?_⟩
    refine ⟨rfl, congrArg some hpass, permission, header, args, rfl, hentitled, ?_⟩
    have hsnd := check_snd env ⟨request.actor, permission, none⟩ s
    rw [Subject.judge] at hsnd
    cases hauthorize : authorize request.actor permission with
    | ok u => rfl
    | error e =>
      rw [hauthorize] at hsnd
      cases hsnd.symm.trans hpass

theorem resume_moved (henv : envs env) (h : Sound m envs c) :
    Moved m s c (c.resume m env s) ∧ Sound m envs (c.resume m env s).2 := by
  obtain ⟨asked, phase, authentication, decision⟩ := c
  cases phase with
  | arrived => exact arrive_moved h
  | verifying token =>
    have hsettles : Settles m envs env ("Bearer " ++ token) s (m.authenticateEnd env token s) :=
      authenticateEnd_settles henv rfl
    refine ⟨?_, sound_authenticated h.2 h.1.decision hsettles.entitled⟩
    show Moved m s _ ((m.authenticateEnd env token s).1, _)
    rw [hsettles.state]
    exact .settled env _ ⟨h.1.authentication, h.1.decision⟩
  | resuming result => exact proceed_moved rfl h
  | handling request => exact ⟨.unseen _, h⟩
  | done response => exact ⟨.unseen _, h⟩

/-- The environment of a turn is one of those in which tokens may be verified. -/
def Turn.In (envs : HealthEnv → Prop) : Turn R → Prop
  | .resume env => envs env
  | .reply _ => True

theorem move_moved {turn : Turn R} (hturn : turn.In envs) (h : Sound m envs c) :
    Moved m s c (c.move m s turn) ∧ Sound m envs (c.move m s turn).2 := by
  cases turn with
  | resume env => exact resume_moved hturn h
  | reply value =>
    obtain ⟨asked, phase, authentication, decision⟩ := c
    cases phase with
    | handling request => exact ⟨.unseen _, h.authentication, h.decision, h.guarded⟩
    | _ => exact ⟨.unseen _, h⟩

/-! ### Accounting -/

/-- Successes, failures and denials, and the records. -/
abbrev Tally := Nat × Nat × Nat × Multiset AuditParams

/-- What is recorded if there is a logger. -/
def noted (audited : Bool) (records : List AuditParams) : Multiset AuditParams :=
  if audited then records else 0

def State.tally (s : State) : Tally :=
  (s.authSuccessCount, s.authFailureCount, s.permissionDenyCount,
    s.auditLogger.elim 0 fun logger => (logger.written.map AuditEvent.params : List AuditParams))

def Call.tally (audited : Bool) (c : Call A R) : Tally :=
  (c.succeeded.toNat, c.failed.toNat, c.denied.toNat, noted audited c.records)

theorem noted_append (audited : Bool) (front back : List AuditParams) :
    noted audited (front ++ back) = noted audited front + noted audited back := by
  cases audited <;> rfl

/-- A record, and what it adds to the counters. -/
theorem tally_record (env : HealthEnv) (params : AuditParams) (s : State)
    (successes failures denials : Nat) :
    State.tally { s.record env params with
      authSuccessCount := s.authSuccessCount + successes
      authFailureCount := s.authFailureCount + failures
      permissionDenyCount := s.permissionDenyCount + denials } =
      s.tally + (successes, failures, denials, noted s.auditLogger.isSome [params.kept]) := by
  obtain ⟨auditLogger, -, -, -⟩ := s
  refine Prod.ext rfl (Prod.ext rfl (Prod.ext rfl ?_))
  cases auditLogger with
  | none => rfl
  | some logger => exact congrArg Multiset.ofList (List.map_append ..)

theorem untold_tally (audited : Bool) (h : Untold c) : c.tally audited = 0 := by
  obtain ⟨asked, phase, authentication, decision⟩ := c
  obtain ⟨rfl, rfl⟩ := h
  cases audited <;> rfl

/-- Settling an authentication is counted and recorded once. -/
theorem after_tally (env : HealthEnv) (s : State)
    (result : Except AuthFailure AuthenticatedRequest) (h : Untold c) :
    (s.after env result).tally + c.tally s.auditLogger.isSome =
      s.tally + (c.authenticated result).tally s.auditLogger.isSome := by
  rw [untold_tally _ h, add_zero]
  obtain ⟨asked, phase, authentication, decision⟩ := c
  obtain ⟨rfl, rfl⟩ := h
  cases result with
  | error failure => exact tally_record env (failureParams failure) s 0 1 0
  | ok request =>
    by_cases hmethod : request.authMethod = .internal
    · have hnone : (Call.authenticated (⟨asked, phase, none, none⟩ : Call A R)
          (.ok request)).tally s.auditLogger.isSome = 0 := by
        simp only [Call.tally, Call.authenticated, Call.succeeded, Call.failed, Call.denied,
          Call.records, Call.authenticationRecords, hmethod]
        cases s.auditLogger.isSome <;> rfl
      rw [hnone, add_zero, State.after, if_pos hmethod]
    · have hone : (Call.authenticated (⟨asked, phase, none, none⟩ : Call A R)
          (.ok request)).tally s.auditLogger.isSome = (1, 0, 0, noted s.auditLogger.isSome
            [successParams request.actor.id request.actor.tenantId request.authMethod]) := by
        have hrecords : Call.authenticationRecords (some (.ok request)) =
            [successParams request.actor.id request.actor.tenantId request.authMethod] :=
          if_neg hmethod
        have hsucceeded : decide (request.authMethod ≠ .internal) = true := decide_eq_true hmethod
        simp only [Call.tally, Call.authenticated, Call.succeeded, Call.failed, Call.denied,
          Call.records, hrecords, hsucceeded]
        rfl
      rw [hone, State.after, if_neg hmethod]
      exact tally_record env (successParams request.actor.id request.actor.tenantId _) s 1 0 0

/-- What a check adds, by its result. -/
theorem check_state_tally (env : HealthEnv) (s : State) (x : Subject) (c : Call A R)
    (next : Phase R) : (x.check env s).1.tally = s.tally +
      (0, 0, (c.checked (x.check env s).2 next).denied.toNat,
        noted s.auditLogger.isSome [x.params]) := by
  rw [check_snd, Subject.params]
  simp only [Subject.check, AuthMiddleware.check]
  cases x.judge with
  | ok u => exact tally_record env (decisionParams x.actor (.of _ _ _ (.ok u))) s 0 0 0
  | error e => exact tally_record env (decisionParams x.actor (.of _ _ _ (.error e))) s 0 0 1

/-- A decision is counted and recorded once. -/
theorem check_tally (env : HealthEnv) (s : State) {x : Subject} (next : Phase R)
    (hx : c.subject? = some x) (h : c.decision = none) :
    (x.check env s).1.tally + c.tally s.auditLogger.isSome =
      s.tally + (c.checked (x.check env s).2 next).tally s.auditLogger.isSome := by
  have hrecords : (c.checked (x.check env s).2 next).records = c.records ++ [x.params] := by
    have hsame : (c.checked (x.check env s).2 next).subject? = some x := hx
    rw [Call.records, Call.records, hsame, h]
    simp only [Call.checked, Option.isSome_some, Option.isSome_none, if_true,
      Bool.false_eq_true, if_false, List.append_nil]
    rfl
  have hcall : (c.checked (x.check env s).2 next).tally s.auditLogger.isSome =
      c.tally s.auditLogger.isSome +
        (0, 0, (c.checked (x.check env s).2 next).denied.toNat,
          noted s.auditLogger.isSome [x.params]) := by
    have hdenied : c.denied = false := by
      rw [Call.denied, h]
    rw [Call.tally, Call.tally, hrecords, noted_append, hdenied]
    refine Prod.ext rfl (Prod.ext rfl (Prod.ext ?_ rfl))
    exact (Nat.zero_add _).symm
  rw [check_state_tally env s x c next, hcall]
  ac_rfl

theorem moved_tally {r : State × Call A R} (h : Moved m s c r) :
    r.1.tally + c.tally s.auditLogger.isSome = s.tally + r.2.tally s.auditLogger.isSome := by
  cases h with
  | unseen phase => rfl
  | settled env result h => exact after_tally env s result h
  | checked env x next hx h => exact check_tally env s next hx h

/-! ### Runs -/

/-- A use of the middleware over time. -/
abbrev Input (A R : Type*) := Processes.Input (HealthEnv × AuditParams) (Request A) (Turn R)

/-- The counters are at zero, and the logger, if there is one, is new. -/
def init (audited : Bool) : State := { auditLogger := if audited then some {} else none }

/-- The calls after a run, and what they share. -/
def after (m : AuthMiddleware) (audited : Bool) (inputs : List (Input A R)) :
    Processes.Pool State (Call A R) :=
  Run.run (m.calls A R).step ⟨init audited, []⟩ inputs

/-- The environments of the turns of a run. -/
def envsOf (inputs : List (Input A R)) (env : HealthEnv) : Prop :=
  ∃ k, .move k (.resume env) ∈ inputs

/-- What other code has recorded. -/
def outsideRecord : Input A R → List AuditParams
  | .outside e => [e.2.kept]
  | .start _ | .move _ _ => []

/-- The events have the numbers from one on. -/
structure Numbered (logger : AuditLogger) : Prop where
  sequence : logger.sequence = logger.written.length
  numbers : logger.written.map AuditEvent.sequence =
    (List.range logger.written.length).map fun i => some (.finite (i + 1 : Nat))

theorem record_numbered {logger : AuditLogger} (now : Int) (timestamp : String)
    (params : AuditParams) (h : Numbered logger) :
    Numbered (logger.record now timestamp params) where
  sequence := by
    rw [AuditLogger.record, h.sequence, List.length_append]
    rfl
  numbers := by
    rw [AuditLogger.record, List.map_append, h.numbers, List.length_append, List.length_singleton,
      List.range_succ, List.map_append, h.sequence]
    rfl

/-- What is recorded by the middleware itself has texts for metadata. -/
def Textual (params : AuditParams) : Prop := ∃ fields, params.metadata = some (metadata fields)

/-- The logger is as it was, or has been handed one record. -/
inductive Logged (ok : AuditParams → Prop) (s s' : State) : Prop
  | same (h : s'.auditLogger = s.auditLogger)
  | more (env : HealthEnv) (params : AuditParams) (hparams : ok params)
    (h : s'.auditLogger = (s.record env params).auditLogger)

theorem after_logged (env : HealthEnv) (s : State)
    (result : Except AuthFailure AuthenticatedRequest) : Logged Textual s (s.after env result) := by
  cases result with
  | error failure => exact .more env _ ⟨_, rfl⟩ rfl
  | ok request =>
    rw [State.after]
    split
    · exact .same rfl
    · exact .more env _ ⟨_, rfl⟩ rfl

theorem check_logged (env : HealthEnv) (s : State) (x : Subject) :
    Logged Textual s (x.check env s).1 := by
  refine .more env x.params ⟨_, rfl⟩ ?_
  rw [Subject.params]
  simp only [Subject.check, AuthMiddleware.check]
  cases x.judge <;> rfl

theorem moved_logged {r : State × Call A R} (h : Moved m s c r) : Logged Textual s r.1 := by
  cases h with
  | unseen phase => exact .same rfl
  | settled env result h => exact after_logged env s result
  | checked env x next hx h => exact check_logged env s x

theorem Logged.isSome {ok : AuditParams → Prop} {s' : State} (h : Logged ok s s') :
    s'.auditLogger.isSome = s.auditLogger.isSome := by
  cases h with
  | same h => rw [h]
  | more env params hparams h => rw [h, State.record, Option.isSome_map]

/-- What every record of a kind keeps holds of the logger afterwards. -/
theorem Logged.forall {ok : AuditParams → Prop} {s' : State} {J : AuditLogger → Prop}
    (hJ : ∀ now timestamp params logger, ok params → J logger →
      J (AuditLogger.record now timestamp params logger))
    (h : Logged ok s s') (hs : ∀ logger, s.auditLogger = some logger → J logger) :
    ∀ logger, s'.auditLogger = some logger → J logger := by
  intro logger hlogger
  cases h with
  | same h => exact hs logger (h ▸ hlogger)
  | more env params hparams h =>
    rw [h, State.record] at hlogger
    obtain ⟨old, hold, rfl⟩ := Option.map_eq_some_iff.mp hlogger
    exact hJ _ _ _ _ hparams (hs old hold)

/-- Every call is sound, and the logger numbers its events. -/
structure Kept (m : AuthMiddleware) (envs : HealthEnv → Prop) (audited : Bool)
    (p : Processes.Pool State (Call A R)) : Prop where
  calls : ∀ c ∈ p.procs, Sound m envs c
  audited : p.shared.auditLogger.isSome = audited
  numbered : ∀ logger, p.shared.auditLogger = some logger → Numbered logger

/-- The environment of an input is one of those in which tokens may be verified. -/
def InputIn (envs : HealthEnv → Prop) (input : Input A R) : Prop :=
  ∀ k turn, input = .move k turn → turn.In envs

variable {audited : Bool} {p : Processes.Pool State (Call A R)} {input : Input A R}
  {inputs : List (Input A R)}

theorem step_logged {ok : AuditParams → Prop} (htextual : ∀ params, Textual params → ok params)
    (houtside : ∀ e, input = .outside e → ok e.2) (hinput : InputIn envs input)
    (h : ∀ c ∈ p.procs, Sound m envs c) :
    Logged ok p.shared ((m.calls A R).step p input).shared := by
  refine Processes.step_shared (J := Logged ok p.shared) (fun e he => ?_) (fun k turn hk c hc => ?_)
    (.same rfl)
  · exact .more e.1 e.2 (houtside e he) rfl
  · cases moved_logged (move_moved (s := p.shared) (hinput k turn hk) (h c hc)).1 with
    | same h => exact .same h
    | more env params hparams h => exact .more env params (htextual params hparams) h

theorem sound_step (hinput : InputIn envs input) (h : ∀ c ∈ p.procs, Sound m envs c) :
    ∀ c ∈ ((m.calls A R).step p input).procs, Sound m envs c :=
  Processes.step_all (fun _ => ⟨rfl, rfl⟩)
    (fun k turn hk _ hc => (move_moved (s := p.shared) (hinput k turn hk) hc).2) h

theorem kept_step (hinput : InputIn envs input) (h : Kept m envs audited p) :
    Kept m envs audited ((m.calls A R).step p input) := by
  have hlogged : Logged (fun _ => True) p.shared ((m.calls A R).step p input).shared :=
    step_logged (fun _ _ => trivial) (fun _ _ => trivial) hinput h.calls
  exact ⟨sound_step hinput h.calls, hlogged.isSome.trans h.audited,
    hlogged.forall (fun now timestamp params _ _ => record_numbered now timestamp params) h.numbered⟩

theorem kept_init (m : AuthMiddleware) (envs : HealthEnv → Prop) (audited : Bool) :
    Kept m envs audited (⟨init audited, []⟩ : Processes.Pool State (Call A R)) where
  calls := List.forall_mem_nil _
  audited := by cases audited <;> rfl
  numbered logger hlogger := by
    cases audited with
    | false => cases hlogger
    | true =>
      obtain rfl : {} = logger := Option.some.inj hlogger
      exact ⟨rfl, rfl⟩

/-- The inputs of a run are among the environments of the run. -/
theorem inputIn_envsOf (inputs : List (Input A R)) :
    ∀ input ∈ inputs, InputIn (envsOf inputs) input := by
  intro input hinput k turn hk
  cases turn with
  | resume env => exact ⟨k, hk ▸ hinput⟩
  | reply value => trivial

theorem kept_after (m : AuthMiddleware) (audited : Bool) (inputs : List (Input A R)) :
    Kept m (envsOf inputs) audited (m.after audited inputs) :=
  (Run.allStates_of_invariant (fun _ _ hs hi => kept_step hi hs) (kept_init m _ audited)
    (Run.allSteps_of_mem (inputIn_envsOf inputs))).last

/-! ### What is counted and recorded -/

/-- The counters count the calls that were let in by a token, that were refused, and that were
denied something, and the logger, if there is one, has handed on exactly what they and other code
have recorded, numbered from one on. -/
structure Accounted (inputs : List (Input A R)) (p : Processes.Pool State (Call A R)) : Prop where
  successes : p.shared.authSuccessCount = p.procs.countP Call.succeeded
  failures : p.shared.authFailureCount = p.procs.countP Call.failed
  denials : p.shared.permissionDenyCount = p.procs.countP Call.denied
  trail : ∀ logger, p.shared.auditLogger = some logger →
    (logger.written.map AuditEvent.params).Perm
      (inputs.flatMap outsideRecord ++ p.procs.flatMap Call.records)
  numbered : ∀ logger, p.shared.auditLogger = some logger →
    logger.written.map AuditEvent.sequence =
      (List.range logger.written.length).map fun i => some (.finite (i + 1 : Nat))

theorem sum_tally (audited : Bool) (calls : List (Call A R)) :
    (calls.map (Call.tally audited)).sum =
      (calls.countP Call.succeeded, calls.countP Call.failed, calls.countP Call.denied,
        noted audited (calls.flatMap Call.records)) := by
  induction calls with
  | nil => cases audited <;> rfl
  | cons c calls ih =>
    rw [List.map_cons, List.sum_cons, ih, List.flatMap_cons, noted_append, List.countP_cons,
      List.countP_cons, List.countP_cons]
    have htoNat (b : Bool) (n : Nat) : b.toNat + n = n + if b = true then 1 else 0 := by
      cases b
      · exact Nat.zero_add n
      · exact Nat.add_comm 1 n
    exact Prod.ext (htoNat _ _) (Prod.ext (htoNat _ _) (Prod.ext (htoNat _ _) rfl))

/-- What a change from outside adds. -/
def outsideTally (audited : Bool) (e : HealthEnv × AuditParams) : Tally :=
  (0, 0, 0, noted audited [e.2.kept])

theorem sum_outsideTally (audited : Bool) (inputs : List (Input A R)) :
    (inputs.map (Processes.Input.weight (outsideTally audited))).sum =
      (0, 0, 0, noted audited (inputs.flatMap outsideRecord)) := by
  induction inputs with
  | nil => cases audited <;> rfl
  | cons input inputs ih =>
    have hone : input.weight (outsideTally audited) =
        (0, 0, 0, noted audited (outsideRecord input)) := by
      cases input with
      | outside e => rfl
      | start request => cases audited <;> rfl
      | move k turn => cases audited <;> rfl
    rw [List.map_cons, List.sum_cons, ih, hone, List.flatMap_cons, noted_append]
    rfl

theorem init_tally (audited : Bool) : (init audited).tally = 0 := by
  cases audited <;> rfl

/-- Over a run, everything is counted and recorded once. -/
theorem after_run_tally (m : AuthMiddleware) (audited : Bool) (inputs : List (Input A R)) :
    (m.after audited inputs).shared.tally =
      (inputs.map (Processes.Input.weight (outsideTally audited))).sum +
        ((m.after audited inputs).procs.map (Call.tally audited)).sum := by
  have hsum := Processes.run_sum (m := m.calls A R) (f := State.tally) (g := Call.tally audited)
    (w := outsideTally audited) (n := 0) (I := Kept m (fun _ => True) audited) (fun p input h => ?_)
    (fun p h e => ?_) (fun s request => untold_tally audited ⟨rfl, rfl⟩) (fun p h c hc turn => ?_)
    (kept_init m _ audited) ?_ inputs
  · rwa [zero_add] at hsum
  · refine kept_step (fun k turn _ => ?_) h
    cases turn <;> trivial
  · rw [outsideTally, ← h.audited]
    exact tally_record e.1 e.2 p.shared 0 0 0
  · have hturn : turn.In fun _ => True := by
      cases turn <;> trivial
    rw [← h.audited]
    exact moved_tally (move_moved (s := p.shared) hturn (h.calls c hc)).1
  · exact init_tally audited

/-- The counters, and the records that the logger has handed on. -/
theorem tally_after (m : AuthMiddleware) (audited : Bool) (inputs : List (Input A R)) :
    (m.after audited inputs).shared.tally =
      ((m.after audited inputs).procs.countP Call.succeeded,
        (m.after audited inputs).procs.countP Call.failed,
        (m.after audited inputs).procs.countP Call.denied,
        noted audited (inputs.flatMap outsideRecord ++
          (m.after audited inputs).procs.flatMap Call.records)) := by
  rw [after_run_tally, sum_tally, sum_outsideTally, noted_append]
  exact Prod.ext (Nat.zero_add _) (Prod.ext (Nat.zero_add _) (Prod.ext (Nat.zero_add _) rfl))

/-- The trail of a logger, up to the order. -/
theorem written_perm (m : AuthMiddleware) (audited : Bool) (inputs : List (Input A R))
    (logger : AuditLogger) (hlogger : (m.after audited inputs).shared.auditLogger = some logger) :
    (logger.written.map AuditEvent.params).Perm
      (inputs.flatMap outsideRecord ++ (m.after audited inputs).procs.flatMap Call.records) := by
  have haudited : audited = true := by
    rw [← (kept_after m audited inputs).audited, hlogger]
    rfl
  subst haudited
  have hwritten : ((logger.written.map AuditEvent.params : List AuditParams) :
      Multiset AuditParams) = (m.after true inputs).shared.tally.2.2.2 := by
    rw [State.tally, hlogger]
    rfl
  rw [tally_after] at hwritten
  exact Multiset.coe_eq_coe.mp hwritten

/-- However the calls interleave, with each other and with other code that uses the logger, each
authentication and each decision is counted once and recorded once, and nothing else is. -/
theorem audit_trail_accounted (m : AuthMiddleware) (audited : Bool) (inputs : List (Input A R)) :
    Accounted inputs (m.after audited inputs) := by
  obtain ⟨hsuccesses, hrest⟩ := Prod.ext_iff.mp (tally_after m audited inputs)
  obtain ⟨hfailures, hrest⟩ := Prod.ext_iff.mp hrest
  exact {
    successes := hsuccesses
    failures := hfailures
    denials := (Prod.ext_iff.mp hrest).1
    trail := written_perm m audited inputs
    numbered := fun logger hlogger =>
      ((kept_after m audited inputs).numbered logger hlogger).numbers
  }

/-! ### Who is handled -/

/-- The call of a guarded function for whose request the handler may be called, with a record of
it. -/
def Vouched (m : AuthMiddleware) (inputs : List (Input A R)) (s : State) (c : Call A R)
    (request : AuthenticatedRequest) : Prop :=
  ∃ permission header args, c.request = .guarded permission header args ∧
    Entitled m (envsOf inputs) header request ∧ authorize request.actor permission = .ok () ∧
    ∀ logger, s.auditLogger = some logger →
      Subject.params ⟨request.actor, permission, none⟩ ∈ logger.written.map AuditEvent.params

theorem ran_of_sound (h : Sound m envs c) (hran : c.ran = some request) : Ran m envs c request := by
  obtain ⟨asked, phase, authentication, decision⟩ := c
  cases phase with
  | handling request' =>
    obtain rfl : request' = request := Option.some.inj hran
    exact h
  | done response =>
    cases response with
    | handled request' reply =>
      obtain rfl : request' = request := Option.some.inj hran
      exact h
    | refused e => cases hran
    | authenticated request' => cases hran
    | allowed => cases hran
  | arrived => cases hran
  | verifying token => cases hran
  | resuming result => cases hran

/-- A handler has its grant among the records of its call. -/
theorem Ran.mem_records {permission : Permission} {args : A} (h : Ran m envs c request)
    (hrequest : c.request = .guarded permission header args) :
    Subject.params ⟨request.actor, permission, none⟩ ∈ c.records := by
  have hsubject : c.subject? = some ⟨request.actor, permission, none⟩ := by
    rw [Call.subject?, hrequest, h.authentication]
  rw [Call.records, hsubject, h.decision]
  exact List.mem_append_right _ (List.mem_singleton_self _)

/-- A token that the library has verified for the issuer and the audience, that has not expired if
it says when it does, and whose claims make the actor. -/
structure VerifiedToken (mapping : Option GroupRoleMapping) (config : OidcConfig) (env : HealthEnv)
    (token : String) (payload : JwtPayload) (actor : Actor) : Prop where
  verified : verifiedPayload env.jose config {} token env.now = .ok payload
  issuer : OrderedMap.lookup "iss" payload = some (.str config.issuer)
  audience : ∃ aud, OrderedMap.lookup "aud" payload = some aud ∧
    .str config.audience ∈ audiences aud
  unexpired : ∀ v, exp? payload = some v → ∃ exp, v = .num exp ∧
    JsNumber.le (.finite exp)
      (.finite (env.now / 1000 : Int) - config.clockSkewSec.getD 30) = false
  made : actorFromJwt (claimsOf config payload) mapping (env.isoText env.now) = .ok actor

theorem verifiedToken_of_bearerActor {config : OidcConfig} {actor : Actor}
    (hjose : env.jose.Checks) (h : bearerActor env.jose token config {} m.groupRoleMapping env.now
      (env.isoText env.now) = some actor) :
    ∃ payload, VerifiedToken m.groupRoleMapping config env token payload actor := by
  rw [bearerActor] at h
  cases hverify : verifyJwt env.jose token config {} env.now with
  | error e =>
    rw [hverify] at h
    cases h
  | ok claims =>
    rw [hverify] at h
    obtain ⟨payload, hpayload, rfl, -⟩ := verifyJwt_eq_ok_iff.mp hverify
    obtain ⟨keys, -, hjwt⟩ := verifiedPayload_eq_ok_iff.mp hpayload
    refine ⟨payload, hpayload, hjose.issuer hjwt, hjose.audience hjwt, fun v => hjose.exp hjwt, ?_⟩
    dsimp only at h
    cases hactor : actorFromJwt (claimsOf config payload) m.groupRoleMapping
        (env.isoText env.now) with
    | error e =>
      rw [hactor] at h
      cases h
    | ok actor' =>
      rw [hactor] at h
      exact congrArg Except.ok (Option.some.inj h)

theorem createAuthMiddleware_eq_ok {processEnv : ProcessEnv} {config : AuthMiddlewareConfig}
    (h : createAuthMiddleware processEnv config = .ok m) :
    m.oidcConfig = config.oidcConfig ∧ m.allowApiKeyFallbackWithOidc = false ∧
      m.requireAuth = config.requireAuth.getD (isEnterpriseMode processEnv) := by
  simp only [createAuthMiddleware] at h
  obtain ⟨mapping, -, rfl⟩ := ExceptRules.map_eq_ok.mp h
  exact ⟨rfl, rfl, rfl⟩

/-- JSON keeps the metadata of a record as they are. -/
def Survives (params : AuditParams) : Prop :=
  ∀ members, params.metadata = some members → MembersSurvive members 1

theorem metadata_survive (fields : List (String × String)) (depth : Nat) :
    MembersSurvive (metadata fields) depth := by
  induction fields with
  | nil => trivial
  | cons field fields ih => exact ⟨Option.some_ne_none _, trivial, ih⟩

/-- What the middleware records is kept as it is. -/
theorem Textual.survives {params : AuditParams} (h : Textual params) : Survives params := by
  obtain ⟨fields, hfields⟩ := h
  intro members hmembers
  obtain rfl : metadata fields = members := Option.some.inj (hfields.symm.trans hmembers)
  exact metadata_survive fields 1

/-- Every event that the sink has been handed survives storage. -/
def Storable (logger : AuditLogger) : Prop := ∀ event ∈ logger.written, event.SurvivesStorage

theorem record_storable {logger : AuditLogger} (now : Int) (timestamp : String)
    {params : AuditParams} (hparams : Survives params) (h : Storable logger) :
    Storable (logger.record now timestamp params) := by
  intro event hevent
  rcases List.mem_append.mp hevent with hevent | hevent
  · exact h event hevent
  · rw [List.mem_singleton.mp hevent]
    exact ⟨fun x hx => ⟨_, (Option.some.inj hx).symm⟩, fun members => hparams members⟩

/-- Metadata that other code has JSON change are not among the inputs. -/
def OutsideSurvives (input : Input A R) : Prop := ∀ e, input = .outside e → Survives e.2

theorem storable_step (hinput : OutsideSurvives input) (hin : InputIn envs input)
    (h : ∀ c ∈ p.procs, Sound m envs c)
    (hs : ∀ logger, p.shared.auditLogger = some logger → Storable logger) :
    ∀ logger, ((m.calls A R).step p input).shared.auditLogger = some logger → Storable logger := by
  have hlogged : Logged Survives p.shared ((m.calls A R).step p input).shared :=
    step_logged (fun _ => Textual.survives) hinput hin h
  exact hlogged.forall (fun now timestamp params _ hok => record_storable now timestamp hok) hs

theorem storable_after (m : AuthMiddleware) (audited : Bool)
    (houtside : ∀ input ∈ inputs, OutsideSurvives input) :
    ∀ logger, (m.after audited inputs).shared.auditLogger = some logger → Storable logger := by
  have hinit : ∀ logger, (init audited).auditLogger = some logger → Storable logger := by
    intro logger hlogger event hevent
    cases audited with
    | false => cases hlogger
    | true =>
      obtain rfl : {} = logger := Option.some.inj hlogger
      cases hevent
  have hrun : Run.AllStates (m.calls A R).step (fun p =>
      Kept m (envsOf inputs) audited p ∧
        ∀ logger, p.shared.auditLogger = some logger → Storable logger)
      ⟨init audited, []⟩ inputs :=
    Run.allStates_of_invariant
      (fun p input h hi => ⟨kept_step hi.2 h.1, storable_step hi.1 hi.2 h.1.calls h.2⟩)
      ⟨kept_init m _ audited, hinit⟩
      ((Run.allSteps_of_mem houtside).and (Run.allSteps_of_mem (inputIn_envsOf inputs)))
  exact hrun.last.2

/-- The events that the sink of the logger has been handed. -/
def trail (s : State) : List AuditEvent := s.auditLogger.elim [] AuditLogger.written

def writtenEvent : FileInput → Option AuditEvent
  | .write event _ => some event
  | .flush _ | .reopen _ => none

/-- A flush that succeeds begins a file, or continues the one that the sink has begun. -/
def InStep (env : FileEnv) (s : FileLog) (i : FileInput) : Prop :=
  FileLog.Flushes s i → FileLog.FileInput.outcome i = .done →
    (s.standing = .fresh ∧ FileLog.BeginsFile env s) ∨
      (s.standing = .inStep ∧ FileAuditSink.rotates env s.sink s.files = false)

private def guardedOidc : OidcConfig where
  issuer := "https://auth.example.com"
  audience := "kirkforge"

/-- One token is known, of an operator, that expires an hour after the run. -/
private def guardedJose : Jose := .ofSignatures fun token _ _ =>
  if token = "t0" then
    some [("iss", .str "https://auth.example.com"), ("aud", .str "kirkforge"),
      ("sub", .str "user-1"), ("groups", .arr [.str "operators"]), ("exp", .num 1700003600)]
  else none

private def guardedEnv : HealthEnv where
  jose := guardedJose
  now := 1700000000000
  isoText _ := "2023-11-14T22:13:20.000Z"

private def guardedMiddleware : AuthMiddleware where
  oidcConfig := some guardedOidc
  apiKey := none
  groupRoleMapping := none
  requireAuth := true
  allowApiKeyFallbackWithOidc := false

private def guardedInputs : List (Input Unit Unit) :=
  [.start (.guarded .operatorHealth "Bearer t0" ()), .move 0 (.resume guardedEnv),
    .move 0 (.resume guardedEnv), .move 0 (.resume guardedEnv), .move 0 (.reply ())]

private def guardedRequest : AuthenticatedRequest where
  actor :=
    { id := "user-1", role := .operator, tenantId := "", authMethod := .oidc,
      verifiedAt := "2023-11-14T22:13:20.000Z" }
  authMethod := .oidc
  tokenId := "user-1"

private theorem guarded_ran : ∃ c ∈ (guardedMiddleware.after true guardedInputs).procs,
    c.ran = some guardedRequest := by
  have hran : (guardedMiddleware.after true guardedInputs).procs.filterMap Call.ran =
      [guardedRequest] := by decide +kernel
  exact List.mem_filterMap.mp (hran ▸ List.mem_singleton_self _)

private theorem guarded_checks : ∀ env, envsOf guardedInputs env → env.jose.Checks := by
  rintro env ⟨k, hk⟩
  have henv : k = 0 ∧ env = guardedEnv := by simpa [guardedInputs] using hk
  have hchecks : guardedJose.Checks := Jose.ofSignatures_checks _
  rw [henv.2]
  exact hchecks

private theorem guarded_outside : ∀ input ∈ guardedInputs, OutsideSurvives input := by
  intro input hinput e he
  subst he
  simp [guardedInputs] at hinput

end KirkForge.AuthMiddleware
